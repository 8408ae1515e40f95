import SmallScript.Proofs.Eval.Discipline
import Mathlib

namespace SmallScript.Eval

open Effect Declares

namespace Discipline

variable {K : Discipline} {host : Host} {d : Declares} {s : State} {f : FrameRef} {ctx : Context}

structure Related (K : Discipline) (D : Context → Evaluator) (E : Evaluator) : Prop where
  fuel : ∀ ctx, (D ctx).fuel = E.fuel
  expr : ∀ {ctx f e s}, K.Good (exprParts e) → K.Holds s → K.here ctx f s →
    K.Tracks nowhere ((D ctx).expr f e) (E.expr f e) s
  stmt : ∀ {ctx p f t s}, K.Good (stmtParts p t) → K.Holds s → K.ready ctx f [t] s →
    K.Tracks (inFrame f t.declares) ((D ctx).stmt f t) (E.stmt f t) s

theorem ready_here_self {ts : List Stmt} (h : K.ready ctx f ts s) : K.here ctx f s :=
  K.ready_here h (.refl _ s)

theorem tracks_evalBuiltin (hs : K.Holds s) (b : Builtin) (args : List Value) :
    K.Tracks d (evalBuiltin host b args) (evalBuiltin host b args) s := by
  cases b with
  | log | print =>
      exact (tracks_look hs _).bind fun line _ _ hs _ =>
        (tracks_writeLine hs host line).bind fun _ _ _ hs _ => tracks_pure hs _
  | failTest => exact (tracks_look hs _).bind fun text _ _ hs _ => tracks_fail hs _
  | isNaN | isFinite =>
      simp only [evalBuiltin]
      exact tracks_look hs _
  | toText =>
      cases args with
      | nil => exact tracks_pure hs _
      | cons v args => exact (tracks_look hs _).bind fun text _ _ hs _ => tracks_pure hs _
  | toNumber =>
      cases args with
      | nil => exact tracks_pure hs _
      | cons v args =>
          simp only [evalBuiltin]
          exact tracks_look hs _
  | toBoolean => exact tracks_pure hs _
  | error c =>
      have hnew {s : State} (hs : K.Holds s) (message : String) :
          K.Tracks d (newError c.name message) (newError c.name message) s :=
        tracks_allocate hs (fun _ => rfl) fun _ => rfl
      simp only [evalBuiltin]
      cases args.headD .undefined with
      | undefined => exact hnew hs ""
      | _ => exact (tracks_look hs _).bind fun message _ _ hs _ => hnew hs message

theorem tracks_evalFunction (hs : K.Holds s) (hf : f < s.memory.frames.size)
    {definition : Function} (hd : K.Good (functionParts definition)) :
    K.Tracks d (evalFunction f definition) (evalFunction f definition) s := by
  rw [evalFunction]
  cases definition.name with
  | none => exact tracks_newClosure hs hf hd
  | some x =>
      -- The frame of the name is new, so that it may be declared there.
      refine Tracks.nowhere_of_since ?_
      refine (tracks_blockFrame hs hf).bind fun inner s₁ hinner hs₁ _ => ?_
      cases hinner
      have hlt : s.memory.frames.size < (s.memory.newFrame (some f) false).2.frames.size := by simp
      refine (tracks_newClosure hs₁ hlt hd).bind fun v s₂ _ hs₂ hgrows => ?_
      refine (tracks_declare hs₂ (Nat.lt_of_lt_of_le hlt hgrows.size_le) v (Nat.le_refl _)).bind ?_
      exact fun _ _ _ hs₃ _ => tracks_pure hs₃ v

theorem tracks_hoistFunctions {p : Place} (hs : K.Holds s) (hf : f < s.memory.frames.size)
    {body : List Stmt} (hbody : K.Good (stmtsParts p body)) {xs : List (String × Bool)}
    (hxs : ∀ x ∈ hoisted body, (x, true) ∈ xs) :
    K.Tracks (inFrame f xs) (hoistFunctions f body) (hoistFunctions f body) s := by
  induction body generalizing s with
  | nil => exact tracks_pure hs ()
  | cons t body ih =>
      rw [stmtsParts, good_append] at hbody
      cases t with
      | function definition =>
          rw [stmtParts, good_cons] at hbody
          simp only [hoisted, List.mem_append, Option.mem_toList] at hxs
          have hrest (x : String) (hx : x ∈ hoisted body) := hxs x (.inr hx)
          rw [hoistFunctions]
          cases hname : definition.name with
          | none => exact ih hs hf hbody.2 hrest
          | some x =>
              refine (tracks_newClosure hs hf hbody.1.2).bind fun v s₁ _ hs₁ h₁ => ?_
              have hf₁ := Nat.lt_of_lt_of_le hf h₁.size_le
              refine (tracks_declare hs₁ hf₁ v ⟨rfl, hxs x (.inl hname)⟩).bind ?_
              exact fun _ s₂ _ hs₂ h₂ => ih hs₂ (Nat.lt_of_lt_of_le hf₁ h₂.size_le) hbody.2 hrest
      | _ => exact ih hs hf hbody.2 hxs

theorem tracks_bindParams (hs : K.Holds s) (hf : f < s.memory.frames.size) (params : List String)
    (args : List Value) {xs : List (String × Bool)} (hxs : ∀ x ∈ params, (x, true) ∈ xs) :
    K.Tracks (inFrame f xs) (bindParams f params args) (bindParams f params args) s := by
  induction params generalizing s args with
  | nil => exact tracks_pure hs ()
  | cons x params ih =>
      refine (tracks_declare hs hf _ ⟨rfl, hxs x (List.mem_cons_self ..)⟩).bind ?_
      exact fun _ _ _ hs' h => ih hs' (Nat.lt_of_lt_of_le hf h.size_le) args.tail
        fun y hy => hxs y (List.mem_cons_of_mem x hy)

theorem tracks_copyNames (hs : K.Holds s) (source : FrameRef) (hf : f < s.memory.frames.size)
    (names : List (String × Bool)) {xs : List (String × Bool)} (hxs : ∀ x ∈ names, x ∈ xs) :
    K.Tracks (inFrame f xs) (copyNames source f names) (copyNames source f names) s := by
  induction names generalizing s with
  | nil => exact tracks_pure hs ()
  | cons x names ih =>
      refine (tracks_look hs _).bind fun v s₁ _ hs₁ h₁ => ?_
      have hf₁ := Nat.lt_of_lt_of_le hf h₁.size_le
      refine (tracks_declare hs₁ hf₁ v ⟨rfl, hxs x (List.mem_cons_self ..)⟩).bind ?_
      exact fun _ _ _ hs₂ h₂ => ih hs₂ (Nat.lt_of_lt_of_le hf₁ h₂.size_le)
        fun y hy => hxs y (List.mem_cons_of_mem x hy)

theorem tracks_read (hs : K.Holds s) (target : Target) :
    K.Tracks d (target.read f) (target.read f) s := by
  cases target with
  | name x => exact tracks_readName hs f x
  | property base key => exact tracks_getProperty hs base key

theorem tracks_write (hs : K.Holds s) (hf : f < s.memory.frames.size) (v : Value)
    (target : Target)
    (hx : ∀ x, target = .name x → s.memory.resolve? f x = none → K.gains x) :
    K.Tracks d (target.write f v) (target.write f v) s := by
  cases target with
  | name x => exact tracks_assign hs hf x v (hx x rfl)
  | property base key => exact tracks_setProperty hs base key v

theorem resolve?_of_read {x : String} {v : Value} {s' : State}
    (h : (Target.name x).read f s = .done v s') : s' = s ∧ s.memory.resolve? f x ≠ none := by
  rw [Target.read, readName, query, Memory.readName] at h
  cases hlookup : s.memory.lookup? f x with
  | none =>
      rw [hlookup] at h
      cases h
  | some w =>
      rw [hlookup] at h
      cases h
      refine ⟨rfl, fun hnone => ?_⟩
      simp [Memory.lookup?, hnone] at hlookup

variable {D : Context → Evaluator} {E : Evaluator}

namespace Related

theorem evalList (h : K.Related D E) {es : List Expr} (hes : K.Good (exprsParts es))
    (hs : K.Holds s) (hhere : K.here ctx f s) :
    K.Tracks nowhere (evalList (D ctx) f es) (evalList E f es) s := by
  induction es generalizing s with
  | nil => exact tracks_pure hs []
  | cons e es ih =>
      rw [exprsParts, good_append] at hes
      refine (h.expr hes.1 hs hhere).bind fun v s₁ _ hs₁ h₁ => ?_
      refine (ih hes.2 hs₁ (K.here_grows hhere h₁)).bind fun vs _ _ hs₂ _ => ?_
      exact tracks_pure hs₂ (v :: vs)

theorem evalProperties (h : K.Related D E) (t : Table Value) {ps : List (String × Expr)}
    (hps : K.Good (propertyParts ps)) (hs : K.Holds s) (hhere : K.here ctx f s) :
    K.Tracks nowhere (evalProperties (D ctx) f t ps) (evalProperties E f t ps) s := by
  induction ps generalizing s t with
  | nil => exact tracks_pure hs t
  | cons p ps ih =>
      obtain ⟨k, e⟩ := p
      rw [propertyParts, good_append] at hps
      refine (h.expr hps.1 hs hhere).bind fun v s₁ _ hs₁ h₁ => ?_
      exact ih (t.set k v) hps.2 hs₁ (K.here_grows hhere h₁)

theorem evalTarget (h : K.Related D E) {e : Expr} (he : K.Good (exprParts e)) (hs : K.Holds s)
    (hhere : K.here ctx f s) :
    K.Tracks nowhere (evalTarget (D ctx) f e) (evalTarget E f e) s := by
  fun_induction Expr.bare e with
  | case1 e ih =>
      rw [exprParts, good_cons] at he
      exact ih he.2
  | case2 e _ =>
      cases e with
      | ident x => exact tracks_pure hs _
      | field e x =>
          rw [exprParts, good_cons] at he
          exact (h.expr he.2 hs hhere).bind fun base _ _ hs₁ _ => tracks_pure hs₁ _
      | index e k =>
          rw [exprParts, good_cons, good_append] at he
          refine (h.expr he.2.1 hs hhere).bind fun base s₁ _ hs₁ h₁ => ?_
          refine (h.expr he.2.2 hs₁ (K.here_grows hhere h₁)).bind fun v s₂ _ hs₂ _ => ?_
          exact (tracks_look hs₂ _).bind fun key _ _ hs₃ _ => tracks_pure hs₃ _
      | paren e => rename_i hparen; exact (hparen e rfl).elim
      | _ => exact tracks_fail hs _

theorem evalUpdate (h : K.Related D E) {op : UpdateOp} {e : Expr}
    (he : K.Good (exprParts (.update op e))) (hs : K.Holds s) (hhere : K.here ctx f s) :
    K.Tracks nowhere (evalUpdate (D ctx) f op e) (evalUpdate E f op e) s := by
  rw [exprParts, good_cons] at he
  refine (h.evalTarget he.2 hs hhere).bind fun target s₁ _ hs₁ h₁ => ?_
  refine (tracks_read hs₁ target).bind fun old s₂ hread hs₂ h₂ => ?_
  refine (tracks_look hs₂ _).bind fun x s₃ hlook hs₃ h₃ => ?_
  have hf := K.here_lt (K.here_grows hhere ((h₁.trans h₂).trans h₃))
  refine (tracks_write hs₃ hf _ target fun y hy hnone => ?_).bind
    fun _ _ _ hs₄ _ => tracks_pure hs₄ _
  subst hy
  cases hlook
  obtain ⟨rfl, hbound⟩ := resolve?_of_read hread
  exact (hbound hnone).elim

theorem assigned (h : K.Related D E) {op : AssignOp} {l r : Expr}
    (he : K.Good (exprParts (.assign op l r))) (hs : K.Holds s) (hhere : K.here ctx f s) :
    K.Tracks nowhere (assigned (D ctx) f op l r) (assigned E f op l r) s := by
  rw [exprParts, good_cons, good_append] at he
  refine (h.evalTarget he.2.1 hs hhere).bind fun target s₁ _ hs₁ h₁ => ?_
  have hhere₁ := K.here_grows hhere h₁
  cases op with
  | set => exact (h.expr he.2.2 hs₁ hhere₁).bind fun v _ _ hs₂ _ => tracks_pure hs₂ _
  | _ =>
      refine (tracks_read hs₁ target).bind fun old s₂ _ hs₂ h₂ => ?_
      refine (h.expr he.2.2 hs₂ (K.here_grows hhere₁ h₂)).bind fun new s₃ _ hs₃ _ => ?_
      exact (tracks_look hs₃ _).bind fun v _ _ hs₄ _ => tracks_pure hs₄ _

theorem evalAssign (h : K.Related D E) {op : AssignOp} {l r : Expr}
    (he : K.Good (exprParts (.assign op l r))) (hs : K.Holds s) (hhere : K.here ctx f s)
    (hgains : ∀ x, ExprCreates E f x (.assign op l r) s → K.gains x) :
    K.Tracks nowhere (evalAssign (D ctx) f op l r) (evalAssign E f op l r) s := by
  rw [evalAssign_eq, evalAssign_eq]
  refine (h.assigned he hs hhere).bind ?_
  rintro ⟨target, v⟩ s₁ hdone hs₁ h₁
  refine (tracks_write hs₁ (K.here_lt (K.here_grows hhere h₁)) v target ?_).bind
    fun _ _ _ hs₂ _ => tracks_pure hs₂ v
  rintro x rfl hnone
  exact hgains x ⟨op, l, r, v, s₁, rfl, hdone, hnone⟩

theorem evalBinary (h : K.Related D E) {op : BinaryOp} {l r : Expr}
    (he : K.Good (exprParts (.binary op l r))) (hs : K.Holds s) (hhere : K.here ctx f s) :
    K.Tracks nowhere (evalBinary (D ctx) f op l r) (evalBinary E f op l r) s := by
  rw [exprParts, good_cons, good_append] at he
  refine (h.expr he.2.1 hs hhere).bind fun v s₁ _ hs₁ h₁ => ?_
  have hr := h.expr he.2.2 hs₁ (K.here_grows hhere h₁)
  cases op with
  | and => cases v.truthy with
    | true => exact hr
    | false => exact tracks_pure hs₁ v
  | or => cases v.truthy with
    | true => exact tracks_pure hs₁ v
    | false => exact hr
  | _ => exact hr.bind fun w _ _ hs₂ _ => tracks_query hs₂ _

theorem evalUnary (h : K.Related D E) {op : UnaryOp} {e : Expr}
    (he : K.Good (exprParts (.unary op e))) (hs : K.Holds s) (hhere : K.here ctx f s) :
    K.Tracks nowhere (evalUnary (D ctx) f op e) (evalUnary E f op e) s := by
  rw [exprParts, good_cons] at he
  have hrest (unbound : Bool) {s' : State} (hs' : K.Holds s') (hhere' : K.here ctx f s') :
      K.Tracks nowhere
        (if unbound then return .string "undefined"
          else (D ctx).expr f e >>= fun v => look fun m => m.unary op v)
        (if unbound then return .string "undefined"
          else E.expr f e >>= fun v => look fun m => m.unary op v) s' := by
    cases unbound with
    | true => exact tracks_pure hs' _
    | false => exact (h.expr he.2 hs' hhere').bind fun v _ _ hs'' _ => tracks_look hs'' _
  unfold Eval.evalUnary
  split
  · exact (tracks_look hs _).bind fun b _ _ hs₁ h₁ => hrest b hs₁ (K.here_grows hhere h₁)
  · exact (tracks_pure hs _).bind fun b _ _ hs₁ h₁ => hrest b hs₁ (K.here_grows hhere h₁)

theorem evalIndex (h : K.Related D E) {e k : Expr} (he : K.Good (exprParts (.index e k)))
    (hs : K.Holds s) (hhere : K.here ctx f s) :
    K.Tracks nowhere (evalIndex (D ctx) f e k) (evalIndex E f e k) s := by
  rw [exprParts, good_cons, good_append] at he
  refine (h.expr he.2.1 hs hhere).bind fun base s₁ _ hs₁ h₁ => ?_
  refine (h.expr he.2.2 hs₁ (K.here_grows hhere h₁)).bind fun v s₂ _ hs₂ _ => ?_
  exact (tracks_look hs₂ _).bind fun key _ _ hs₃ _ => tracks_getProperty hs₃ base key

theorem runInOrder (h : K.Related D E) {p : Place} (last : Option Value) {ts : List Stmt}
    (hts : K.Good (stmtsParts p ts)) (hs : K.Holds s) (hready : K.ready ctx f ts s) :
    K.Tracks (inFrame f (declaredBy ts)) (runInOrder (D ctx) f last ts) (runInOrder E f last ts) s := by
  induction ts generalizing s last with
  | nil => exact tracks_pure hs _
  | cons t ts ih =>
      rw [stmtsParts, good_append] at hts
      have hhead := h.stmt hts.1 hs (K.ready_head hready)
      have hmono : ∀ i < s.memory.frames.size, ∀ x isMutable, inFrame f t.declares i x isMutable →
          inFrame f (declaredBy (t :: ts)) i x isMutable :=
        fun i _ x isMutable hd => ⟨hd.1, List.mem_append_left _ hd.2⟩
      refine (hhead.mono hmono).bind fun c s₁ hdone hs₁ _ => ?_
      have hgrows := (hhead.done hdone).2
      cases c with
      | normal v =>
          refine (ih (v <|> last) hts.2 hs₁ (K.ready_tail hready hgrows)).mono ?_
          exact fun i _ x isMutable hd => ⟨hd.1, List.mem_append_right _ hd.2⟩
      | returned v => exact tracks_pure hs₁ _
      | broke => exact tracks_pure hs₁ _
      | continued => exact tracks_pure hs₁ _

theorem evalOperands (h : K.Related D E) {callee : Expr} {args : List Expr}
    (hc : K.Good (exprParts callee)) (ha : K.Good (exprsParts args)) (hs : K.Holds s)
    (hhere : K.here ctx f s) :
    K.Tracks nowhere (evalOperands (D ctx) f callee args) (evalOperands E f callee args) s := by
  refine (h.expr hc hs hhere).bind fun v s₁ _ hs₁ h₁ => ?_
  exact (h.evalList ha hs₁ (K.here_grows hhere h₁)).bind fun vs _ _ hs₂ _ => tracks_pure hs₂ (v, vs)

end Related

end Discipline

end SmallScript.Eval
