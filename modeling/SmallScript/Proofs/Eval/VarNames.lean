import SmallScript.Proofs.Eval.Tracking.Body
import Mathlib

namespace SmallScript

/-- Some `var` declares `x` in the statement, outside functions. -/
inductive Stmt.DeclaresVar (x : String) : Stmt → Prop where
  | decl {ds : List (String × Option Expr)} {init : Option Expr} (h : (x, init) ∈ ds) :
      DeclaresVar x (.decl .var ds)
  | whenTrue {c : Expr} {t : Stmt} {e : Option Stmt} (h : DeclaresVar x t) :
      DeclaresVar x (.ifElse c t e)
  | whenFalse {c : Expr} {t e : Stmt} (h : DeclaresVar x e) : DeclaresVar x (.ifElse c t (some e))
  | whileLoop {c : Expr} {body : Stmt} (h : DeclaresVar x body) :
      DeclaresVar x (.whileLoop c body)
  | doWhile {c : Expr} {body : Stmt} (h : DeclaresVar x body) : DeclaresVar x (.doWhile body c)
  | forInit {init body : Stmt} {test update : Option Expr} (h : DeclaresVar x init) :
      DeclaresVar x (.forLoop (some init) test update body)
  | forBody {init : Option Stmt} {test update : Option Expr} {body : Stmt}
      (h : DeclaresVar x body) : DeclaresVar x (.forLoop init test update body)
  | block {t : Stmt} {body : List Stmt} (ht : t ∈ body) (h : DeclaresVar x t) :
      DeclaresVar x (.block body)
  | attempt {t : Stmt} {body : List Stmt} {handler : Option (String × List Stmt)}
      {finalizer : Option (List Stmt)} (ht : t ∈ body) (h : DeclaresVar x t) :
      DeclaresVar x (.tryCatch body handler finalizer)
  | handler {t : Stmt} {body h : List Stmt} {param : String} {finalizer : Option (List Stmt)}
      (ht : t ∈ h) (hx : DeclaresVar x t) :
      DeclaresVar x (.tryCatch body (some (param, h)) finalizer)
  | finalizer {t : Stmt} {body last : List Stmt} {handler : Option (String × List Stmt)}
      (ht : t ∈ last) (hx : DeclaresVar x t) : DeclaresVar x (.tryCatch body handler (some last))

def DeclareVar (body : List Stmt) (x : String) : Prop := ∃ t ∈ body, t.DeclaresVar x

namespace Eval

theorem varNamesOf_eq_flatMap (ts : List Stmt) :
    varNames.varNamesOf ts = ts.flatMap varNames := by
  induction ts with
  | nil => rfl
  | cons t ts ih => rw [varNames.varNamesOf, ih, List.flatMap_cons]

theorem mem_varNamesOf {ts : List Stmt} {x : String} :
    x ∈ varNames.varNamesOf ts ↔ ∃ t ∈ ts, x ∈ varNames t := by
  rw [varNamesOf_eq_flatMap, List.mem_flatMap]

theorem varNames_tryCatch (body : List Stmt) (handler : Option (String × List Stmt))
    (finalizer : Option (List Stmt)) (x : String) :
    x ∈ varNames (.tryCatch body handler finalizer) ↔
      x ∈ varNames.varNamesOf body ∨ (∃ h ∈ handler, x ∈ varNames.varNamesOf h.2) ∨
        ∃ last ∈ finalizer, x ∈ varNames.varNamesOf last := by
  rcases handler with _ | ⟨param, h⟩ <;> cases finalizer <;> simp [varNames]

theorem mem_varNames_of_declaresVar {t : Stmt} {x : String} (h : t.DeclaresVar x) :
    x ∈ varNames t := by
  induction h with
  | decl hx => exact List.mem_map_of_mem hx
  | @whenTrue c t e _ ih => cases e <;> simp [varNames, ih]
  | whenFalse _ ih => exact List.mem_append_right _ ih
  | whileLoop _ ih | doWhile _ ih => exact ih
  | forInit _ ih =>
      rw [varNames]
      exact List.mem_append_left _ ih
  | @forBody init test update body _ ih => cases init <;> simp [varNames, ih]
  | block ht _ ih => exact mem_varNamesOf.mpr ⟨_, ht, ih⟩
  | attempt ht _ ih => exact (varNames_tryCatch ..).mpr (.inl (mem_varNamesOf.mpr ⟨_, ht, ih⟩))
  | handler ht _ ih =>
      exact (varNames_tryCatch ..).mpr (.inr (.inl ⟨_, rfl, mem_varNamesOf.mpr ⟨_, ht, ih⟩⟩))
  | finalizer ht _ ih =>
      exact (varNames_tryCatch ..).mpr (.inr (.inr ⟨_, rfl, mem_varNamesOf.mpr ⟨_, ht, ih⟩⟩))

mutual

theorem declaresVar_of_mem_varNames {x : String} : (t : Stmt) → x ∈ varNames t → t.DeclaresVar x
  | .decl .var ds, hx => by
      obtain ⟨d, hd, rfl⟩ := List.mem_map.mp hx
      exact .decl hd
  | .ifElse _ t none, hx => .whenTrue (declaresVar_of_mem_varNames t hx)
  | .ifElse _ t (some e), hx => by
      rcases List.mem_append.mp hx with hx | hx
      · exact .whenTrue (declaresVar_of_mem_varNames t hx)
      · exact .whenFalse (declaresVar_of_mem_varNames e hx)
  | .whileLoop _ body, hx => .whileLoop (declaresVar_of_mem_varNames body hx)
  | .doWhile body _, hx => .doWhile (declaresVar_of_mem_varNames body hx)
  | .forLoop none _ _ body, hx => .forBody (declaresVar_of_mem_varNames body hx)
  | .forLoop (some init) _ _ body, hx => by
      rcases List.mem_append.mp hx with hx | hx
      · exact .forInit (declaresVar_of_mem_varNames init hx)
      · exact .forBody (declaresVar_of_mem_varNames body hx)
  | .block body, hx => by
      obtain ⟨t, ht, hx⟩ := declareVar_of_mem_varNamesOf body hx
      exact .block ht hx
  | .tryCatch body handler finalizer, hx => by
      rcases (varNames_tryCatch ..).mp hx with hx | hx | hx
      · obtain ⟨t, ht, hx⟩ := declareVar_of_mem_varNamesOf body hx
        exact .attempt ht hx
      · match handler, hx with
        | some (param, h), ⟨_, rfl, hx⟩ =>
            obtain ⟨t, ht, hx⟩ := declareVar_of_mem_varNamesOf h hx
            exact .handler ht hx
      · match finalizer, hx with
        | some last, ⟨_, rfl, hx⟩ =>
            obtain ⟨t, ht, hx⟩ := declareVar_of_mem_varNamesOf last hx
            exact .finalizer ht hx
  | .decl .letDecl _, hx | .decl .constDecl _, hx | .function _, hx | .breakLoop, hx
  | .continueLoop, hx | .returnValue _, hx | .throw _, hx | .expr _, hx | .empty, hx => by
      simp [varNames] at hx

theorem declareVar_of_mem_varNamesOf {x : String} :
    (ts : List Stmt) → x ∈ varNames.varNamesOf ts → DeclareVar ts x
  | t :: ts, hx => by
      rw [varNames.varNamesOf, List.mem_append] at hx
      rcases hx with hx | hx
      · exact ⟨t, List.mem_cons_self .., declaresVar_of_mem_varNames t hx⟩
      · obtain ⟨u, hu, hx⟩ := declareVar_of_mem_varNamesOf ts hx
        exact ⟨u, List.mem_cons_of_mem t hu, hx⟩

end

theorem mem_varNamesOf_iff (body : List Stmt) (x : String) :
    x ∈ varNames.varNamesOf body ↔ DeclareVar body x := by
  refine ⟨declareVar_of_mem_varNamesOf body, fun h => ?_⟩
  obtain ⟨t, ht, hx⟩ := h
  exact mem_varNamesOf.mpr ⟨t, ht, mem_varNames_of_declaresVar hx⟩

end Eval

/-- Between the memories the `var` names of the body were hoisted into the frame `i`: those that it
did not bind have become `undefined`, and nothing else has changed. -/
structure Memory.Hoists (m m' : Memory) (i : FrameRef) (body : List Stmt) : Prop where
  binds : ∀ x, DeclareVar body x → m.bindingAt? i x = none →
    m'.bindingAt? i x = some ⟨.undefined, true⟩
  keeps : ∀ j x, j ≠ i ∨ ¬DeclareVar body x ∨ m.bindingAt? i x ≠ none →
    m'.bindingAt? j x = m.bindingAt? j x

theorem Memory.hoists_declareVars {m : Memory} {i : FrameRef} (hi : i < m.frames.size)
    (hboundary : (m.frameAt i).isBoundary = true) (body : List Stmt) :
    m.Hoists (m.declareVars i (Eval.varNames.varNamesOf body)) i body := by
  refine ⟨fun x hx hnone => ?_, fun j x hother => ?_⟩
  · rw [bindingAt?_declareVars hi hboundary, if_pos]
    exact ⟨rfl, (Eval.mem_varNamesOf_iff body x).mpr hx, isDeclaredHere_eq_false.mpr hnone⟩
  · rw [bindingAt?_declareVars hi hboundary, if_neg]
    rintro ⟨rfl, hx, hunbound⟩
    rw [Eval.mem_varNamesOf_iff] at hx
    rw [isDeclaredHere_eq_false] at hunbound
    rcases hother with hne | hno | hbound
    · exact hne rfl
    · exact hno hx
    · exact hbound hunbound

namespace Eval

theorem bindParams_frames {f : FrameRef} (params : List String) (args : List Value) {s s' : State}
    (hf : f < s.memory.frames.size) (h : bindParams f params args s = .done () s') :
    s'.memory.frames.size = s.memory.frames.size ∧
      (s'.memory.frameAt f).isBoundary = (s.memory.frameAt f).isBoundary := by
  induction params generalizing args s with
  | nil =>
      cases h
      exact ⟨rfl, rfl⟩
  | cons x params ih =>
      obtain ⟨hsize, hboundary⟩ := ih args.tail
        (s := { s with memory := s.memory.declare f x (args.headD .undefined) true })
        (by simpa using hf) h
      exact ⟨hsize.trans (by simp), hboundary.trans (Memory.frameAt_declare hf true f).2⟩

/-- A call runs its body from a state in which, behind the parameters, the `var` names of the body
have been hoisted into the new frame. -/
theorem callBody_hoists (E : Evaluator) (c : ClosureRef) (args : List Value) (s : State) :
    ∃ s₁ s₂,
      bindParams s.memory.frames.size (s.memory.closureAt c).definition.params args
        (s.withFrame (s.memory.closureAt c).scope true) = .done () s₁ ∧
      s₁.memory.Hoists s₂.memory s.memory.frames.size (s.memory.closureAt c).definition.body ∧
      callBody E c args s =
        Effect.deeper (runBody E s.memory.frames.size (s.memory.closureAt c).definition.body) s₂ := by
  obtain ⟨s₁, hparams, henter⟩ := Discipline.enterCall_done (s.memory.closureAt c) args s
  have hopens := s.opens_withFrame (s.memory.closureAt c).scope true
  obtain ⟨hsize, hboundary⟩ := bindParams_frames _ _ hopens.lt hparams
  have hhoists := Memory.hoists_declareVars (hsize.symm ▸ hopens.lt)
    (hboundary.trans hopens.isBoundary) (s.memory.closureAt c).definition.body
  refine ⟨s₁, ⟨_, s₁.output, s₁.writes, s₁.depth⟩, hparams, hhoists, ?_⟩
  rw [callBody_apply, Effect.bind_apply, henter]
  rfl

end Eval

end SmallScript
