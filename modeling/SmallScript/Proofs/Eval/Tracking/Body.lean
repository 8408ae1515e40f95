import SmallScript.Proofs.Eval.Tracking.Expression
import SmallScript.Proofs.Memory.Hoisting
import Mathlib

namespace SmallScript.Eval

open Effect Declares

def mutables (xs : List String) : List (String × Bool) := xs.map fun x => (x, true)

@[simp] theorem mem_mutables {xs : List String} {x : String} {isMutable : Bool} :
    (x, isMutable) ∈ mutables xs ↔ isMutable = true ∧ x ∈ xs := by
  simp [mutables, and_comm, eq_comm]

/-- The frame of a call, with its parameters bound and its `var` names hoisted. -/
def enterCall (closure : Closure) (args : List Value) : Effect FrameRef := do
  let f ← allocate fun m => m.newFrame (some closure.scope) true
  bindParams f closure.definition.params args
  hoistVars f closure.definition.body
  return f

theorem callBody_apply (E : Evaluator) (c : ClosureRef) (args : List Value) (s : State) :
    callBody E c args s =
      (enterCall (s.memory.closureAt c) args >>= fun f =>
        deeper (runBody E f (s.memory.closureAt c).definition.body)) s := by
  simp only [enterCall, bind_assoc, pure_bind]
  rfl

namespace Discipline

variable {K : Discipline} {host : Host} {d : Declares} {s : State} {f : FrameRef} {ctx : Context}

theorem tracks_hoistVars (hs : K.Holds s) (hf : f < s.memory.frames.size)
    (hboundary : (s.memory.frameAt f).isBoundary = true) {body : List Stmt}
    (hd : ∀ x ∈ varNames.varNamesOf body, d f x true) :
    K.Tracks d (hoistVars f body) (hoistVars f body) s := by
  refine tracks_done (hoistVars_apply f body s) ⟨hs.rooted.declareVars hf hboundary _, ?_⟩
    ⟨⟨rfl, Memory.grows_declareVars hf hboundary fun x hx => .inr (hd x hx)⟩, ?_⟩
  · exact (Memory.frameAt_declareVars hf hboundary _).2.1 ▸ hs.closures
  · intro _ x _ hx hnone
    show (s.memory.declareVars f _).bindingAt? K.global x = none
    rw [Memory.bindingAt?_declareVars hf hboundary, if_neg]
    · exact hnone
    · rintro ⟨hg, hmem, -⟩
      exact hx true (hg ▸ hd x hmem)

theorem bindParams_done (f : FrameRef) (xs : List String) (args : List Value) (s : State) :
    ∃ s', bindParams f xs args s = .done () s' := by
  induction xs generalizing args s with
  | nil => exact ⟨s, rfl⟩
  | cons x xs ih => exact ih args.tail { s with memory := s.memory.declare f x _ true }

theorem enterCall_done (closure : Closure) (args : List Value) (s : State) :
    ∃ s', bindParams s.memory.frames.size closure.definition.params args
        (s.withFrame closure.scope true) = .done () s' ∧
      enterCall closure args s = .done s.memory.frames.size
        { s' with
          memory := s'.memory.declareVars s.memory.frames.size
            (varNames.varNamesOf closure.definition.body) } := by
  obtain ⟨s', hs'⟩ := bindParams_done s.memory.frames.size closure.definition.params args
    (s.withFrame closure.scope true)
  refine ⟨s', hs', ?_⟩
  have hframe : (allocate fun m => m.newFrame (some closure.scope) true) s =
      .done s.memory.frames.size (s.withFrame closure.scope true) := rfl
  simp only [enterCall, bind_apply, hframe, Outcome.bind, hs', hoistVars_apply]
  rfl

theorem tracks_enterCall (hs : K.Holds s) {closure : Closure}
    (hscope : closure.scope < s.memory.frames.size) (args : List Value) :
    ∃ s', enterCall closure args s = .done s.memory.frames.size s' ∧ K.Holds s' ∧
      K.Leads (inFrame s.memory.frames.size (mutables (closure.definition.params ++
          varNames.varNamesOf closure.definition.body))) (s.withFrame closure.scope true) s' ∧
      ∀ x ∈ varNames.varNamesOf closure.definition.body,
        s'.memory.isDeclaredHere s.memory.frames.size x = true := by
  obtain ⟨s₂, hparams, henter⟩ := enterCall_done closure args s
  have hopens := s.opens_withFrame closure.scope true
  have hnames : K.Tracks
      (inFrame s.memory.frames.size (mutables (closure.definition.params ++
        varNames.varNamesOf closure.definition.body)))
      (bindParams s.memory.frames.size closure.definition.params args)
      (bindParams s.memory.frames.size closure.definition.params args)
      (s.withFrame closure.scope true) :=
    tracks_bindParams (hs.newFrame hscope true) hopens.lt _ args fun x hx =>
      mem_mutables.mpr ⟨rfl, List.mem_append_left _ hx⟩
  obtain ⟨hs₂, h₂⟩ := hnames.leads hparams
  have hopens₂ := (State.opens_of_grows h₂.grows.memory).1
  have hvars : K.Tracks
      (inFrame s.memory.frames.size (mutables (closure.definition.params ++
        varNames.varNamesOf closure.definition.body)))
      (hoistVars s.memory.frames.size closure.definition.body)
      (hoistVars s.memory.frames.size closure.definition.body) s₂ :=
    tracks_hoistVars hs₂ hopens₂.lt hopens₂.isBoundary fun x hx =>
      ⟨rfl, mem_mutables.mpr ⟨rfl, List.mem_append_right _ hx⟩⟩
  obtain ⟨hs₃, h₃⟩ := hvars.leads (hoistVars_apply ..)
  exact ⟨_, henter, hs₃, h₂.trans h₃,
    fun x hx => Memory.isDeclaredHere_declareVars hopens₂.lt hopens₂.isBoundary hx⟩

theorem bindsFunctions_of_hoistFunctions (hf : f < s.memory.frames.size) {body : List Stmt}
    {s' : State} (h : hoistFunctions f body s = .done () s') : s'.memory.BindsFunctions f body := by
  obtain ⟨s₁, hdone, -, hbinds⟩ := hoistFunctions_done body hf
  obtain rfl : s' = s₁ := by cases h.symm.trans hdone; rfl
  intro x hx
  obtain ⟨c, hc⟩ := hbinds x hx
  exact Memory.isDeclaredHere_iff.mpr ⟨_, hc⟩

variable {D : Context → Evaluator} {E : Evaluator}

namespace Related

theorem runBody (h : K.Related D E) {p : Place} {body : List Stmt}
    (hbody : K.Good (stmtsParts p body)) (hs : K.Holds s) (hf : f < s.memory.frames.size)
    (hready : ∀ s', K.Holds s' → s.Grows (inFrame f (mutables (hoisted body))) s' →
      s'.memory.BindsFunctions f body → K.ready ctx f body s') :
    K.Tracks (inFrame f (mutables (hoisted body) ++ declaredBy body)) (runBody (D ctx) f body)
      (runBody E f body) s := by
  have hhoist : K.Tracks (inFrame f (mutables (hoisted body))) (hoistFunctions f body)
      (hoistFunctions f body) s :=
    tracks_hoistFunctions hs hf hbody fun x hx => mem_mutables.mpr ⟨rfl, hx⟩
  refine (hhoist.mono fun i _ x isMutable hd => ⟨hd.1, List.mem_append_left _ hd.2⟩).bind ?_
  intro _ s' hdone hs' _
  have hbinds := bindsFunctions_of_hoistFunctions hf hdone
  refine (h.runInOrder none hbody hs' (hready s' hs' (hhoist.done hdone).2 hbinds)).mono ?_
  exact fun i _ x isMutable hd => ⟨hd.1, List.mem_append_right _ hd.2⟩

/-- The frame of a call is new, and binds parameters, `var` names and functions when the body
starts. -/
theorem callBody (h : K.Related D E) (c : ClosureRef) (args : List Value) (hs : K.Holds s)
    (hhere : K.here ctx f s) :
    K.Tracks nowhere (callBody (D (.call (s.memory.closureAt c).definition :: ctx)) c args)
      (callBody E c args) s := by
  have hgood := hs.closureAt c
  have hscope := hs.rooted.closureAt_scope_lt c
  rw [Tracks, callBody_apply, callBody_apply]
  generalize s.memory.closureAt c = closure at hgood hscope
  obtain ⟨⟨name, params, body⟩, outer⟩ := closure
  rw [functionParts, good_cons] at hgood
  obtain ⟨s₁, henter, hs₁, h₁, hvars⟩ := tracks_enterCall hs hscope args
  have hleads := (leads_withFrame (K := K) s (since s.memory.frames.size) outer true).trans
    (h₁.mono fun _ _ _ _ hd => hd.1 ▸ Nat.le_refl _)
  refine Tracks.nowhere_of_since (x := _ >>= _) (y := _ >>= _) ?_
  refine (tracks_done henter hs₁ hleads).bind fun i s₁' hdone _ _ => ?_
  rw [henter] at hdone
  cases hdone
  have hlt := (State.opens_of_grows h₁.grows.memory).1.lt
  refine Tracks.deeper (Tracks.since
    (h.runBody hgood.2 (s := { s₁ with depth := s₁.depth + 1 }) (hs₁.of_frames_eq rfl rfl) hlt ?_)
    (Nat.le_refl _))
  intro s₂ hs₂ h₂ hbinds
  have hnames : (s.withFrame outer true).memory.Grows (inFrame s.memory.frames.size
      (mutables (params ++ varNames.varNamesOf body ++ hoisted body))) s₂.memory := by
    refine (h₁.grows.memory.mono ?_).trans (h₂.memory.mono ?_)
    · rintro i _ x isMutable ⟨hi, hx⟩
      rw [mem_mutables] at hx
      exact ⟨hi, mem_mutables.mpr ⟨hx.1, List.mem_append_left _ hx.2⟩⟩
    · rintro i _ x isMutable ⟨hi, hx⟩
      rw [mem_mutables] at hx
      exact ⟨hi, mem_mutables.mpr ⟨hx.1, List.mem_append_right _ hx.2⟩⟩
  obtain ⟨hopens, hbound⟩ := State.opens_of_grows hnames
  refine K.ready_call hhere hgood.1 hopens ?_ (fun x b hb => ?_)
    (fun x hx => h₂.memory.isDeclaredHere (hvars x hx)) hbinds
  · rw [h₂.depth]
    exact congrArg (· + 1) h₁.grows.depth
  · have hx := mem_mutables.mp (hbound x b hb)
    rw [List.mem_append, List.mem_append, or_assoc] at hx
    exact hx

theorem callClosure (h : K.Related D E) (c : ClosureRef) (args : List Value) (hs : K.Holds s)
    (hhere : K.here ctx f s) :
    K.Tracks nowhere
      (callClosure host (D (.call (s.memory.closureAt c).definition :: ctx)) c args)
      (callClosure host E c args) s := by
  refine (tracks_depth hs).bind fun n s' hdone hs' _ => ?_
  cases hdone
  split
  · exact tracks_fail hs' _
  · refine (h.callBody c args hs' hhere).bind fun c _ _ hs₁ _ => ?_
    cases c with
    | normal v | returned v => exact tracks_pure hs₁ _
    | broke | continued => exact tracks_fail hs₁ _

theorem callIn (h : K.Related D E) {callee : Expr} {args : List Expr}
    (hc : K.Good (exprParts callee)) (ha : K.Good (exprsParts args)) (hs : K.Holds s)
    (hhere : K.here ctx f s) :
    K.Tracks nowhere (callIn host D ctx f callee args) (evalCall host E f callee args) s := by
  refine (h.evalOperands hc ha hs hhere).bind ?_
  rintro ⟨v, vs⟩ s₁ - hs₁ h₁
  cases v with
  | builtin b => exact tracks_evalBuiltin hs₁ b vs
  | closure c =>
      have hcall : K.Tracks nowhere
          (Eval.callClosure host (D (.call (s₁.memory.closureAt c).definition :: ctx)) c vs)
          (Eval.callClosure host E c vs) s₁ :=
        h.callClosure c vs hs₁ (K.here_grows hhere h₁)
      rw [Tracks] at hcall ⊢
      exact hcall
  | _ => exact tracks_fail hs₁ _

theorem evalNew (h : K.Related D E) {callee : Expr} {args : List Expr}
    (hc : K.Good (exprParts callee)) (ha : K.Good (exprsParts args)) (hs : K.Holds s)
    (hhere : K.here ctx f s) :
    K.Tracks nowhere (evalNew host (D ctx) f callee args) (evalNew host E f callee args) s := by
  refine (h.evalOperands hc ha hs hhere).bind ?_
  rintro ⟨v, vs⟩ s₁ - hs₁ _
  cases v with
  | builtin b =>
      simp only
      split
      · exact tracks_evalBuiltin hs₁ b vs
      · exact tracks_fail hs₁ _
  | _ => exact tracks_fail hs₁ _

theorem exprIn (h : K.Related D E) {e : Expr} (he : K.Good (exprParts e)) (hs : K.Holds s)
    (hhere : K.here ctx f s) (hgains : ∀ x, ExprCreates E f x e s → K.gains x) :
    K.Tracks nowhere (exprIn host D ctx f e) (evalExpr host E f e) s := by
  cases e with
  | ident x => exact tracks_readName hs f x
  | number | bool | null | string => exact tracks_pure hs _
  | paren e =>
      rw [exprParts, good_cons] at he
      exact h.expr he.2 hs hhere
  | array items =>
      rw [exprParts, good_cons] at he
      exact (h.evalList he.2 hs hhere).bind fun vs _ _ hs₁ _ =>
        tracks_allocate hs₁ (fun _ => rfl) fun _ => rfl
  | object properties =>
      rw [exprParts, good_cons] at he
      exact (h.evalProperties [] he.2 hs hhere).bind fun t _ _ hs₁ _ =>
        tracks_allocate hs₁ (fun _ => rfl) fun _ => rfl
  | function definition =>
      rw [exprParts, good_cons] at he
      exact tracks_evalFunction hs (K.here_lt hhere) he.2
  | field e x =>
      rw [exprParts, good_cons] at he
      exact (h.expr he.2 hs hhere).bind fun base _ _ hs₁ _ => tracks_getProperty hs₁ base x
  | index e k => exact h.evalIndex he hs hhere
  | call callee args =>
      rw [exprParts, good_cons, good_append] at he
      exact h.callIn he.2.1 he.2.2 hs hhere
  | new callee args =>
      rw [exprParts, good_cons, good_append] at he
      exact h.evalNew he.2.1 he.2.2 hs hhere
  | binary op l r => exact h.evalBinary he hs hhere
  | unary op e => exact h.evalUnary he hs hhere
  | update op e => exact h.evalUpdate he hs hhere
  | assign op l r => exact h.evalAssign he hs hhere hgains
  | cond c t e =>
      simp only [exprParts, good_cons, good_append] at he
      refine (h.expr he.2.1.1 hs hhere).bind fun v s₁ _ hs₁ h₁ => ?_
      cases v.truthy with
      | true => exact h.expr he.2.1.2 hs₁ (K.here_grows hhere h₁)
      | false => exact h.expr he.2.2 hs₁ (K.here_grows hhere h₁)

end Related

end Discipline

end SmallScript.Eval
