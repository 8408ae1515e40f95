import SmallScript.Proofs.Early.Acceptance
import SmallScript.Proofs.Eval.Diversion

namespace SmallScript.Eval

open Effect Comparison

/-- How a statement may finish at a place: with a jump only to what is around it. -/
def Completion.FitsAt (p : Place) : Completion → Prop
  | normal _ => True
  | returned _ => p.inFunction = true
  | broke | continued => p.inLoop = true

/-- Whether something is assigned that is no target, or a function is called whose body ends with a
jump out of a loop. -/
def misplacedAt (host : Host) (E : Evaluator) (f : FrameRef) : Expr → State → Bool
  | .assign _ l _, _ => !l.isTarget
  | .update _ e, _ => !e.isTarget
  | .call callee args, s =>
    match evalOperands E f callee args s with
    | .done (.closure c, vs) s =>
      if host.maxDepth ≤ s.depth then false
      else
        match callBody E c vs s with
        | .done .broke _ | .done .continued _ => true
        | _ => false
    | _ => false
  | _, _ => false

def misplaced (host : Host) : Spots := ⟨misplacedAt host, fun _ _ _ _ => false⟩

def Contract.strict (host : Host) : Contract host where
  ok := Early.Valid
  allowed p c := c.FitsAt p
  admits e := e.IsOrdinary ∨ ∃ n m, host.sinkFault n = some m ∧ e = .sinkFailed m
  ok_empty := by
    simp [Early.Valid, Scope.Distinct, Scope.Apart, Scope.function, Scope.lexicalNames,
      Early.decls.declsOf]
  allowed_normal _ _ := trivial
  allowed_broke _ h := h
  allowed_continued _ h := h
  allowed_returned _ _ _ h := h
  allowed_loop _ _ h := h
  admits_ordinary _ h := .inl h
  admits_sink n m h := .inr ⟨n, m, h, rfl⟩
  admits_assign _ _ _ h := .inl h
  admits_update _ _ h := .inl h
  admits_body := by
    rintro c h (rfl | rfl)
    · cases h
    · cases h
  admits_top := by
    intro c m h
    cases c with
    | normal v => exact .inl ⟨v, rfl⟩
    | returned v => cases h
    | broke => cases h
    | continued => cases h

def Comparison.same (host : Host) : Comparison host where
  toContract := .strict host
  like o o' := o = o'
  like_refl _ := rfl
  like_bind := by
    rintro α β o o' f g rfl hfg
    cases o with
    | done a s => exact hfg a s rfl
    | fail e s => rfl
    | exhausted => rfl
  like_leave := by
    rintro α o o' rfl
    rfl

variable {host : Host}

theorem same_catches : (same host).Catches := by
  rintro o o' rfl
  rfl

/-- In a program that is accepted nothing is misplaced. -/
theorem not_misplacedAt {D E : Evaluator} (h : (same host).Related D E) {f : FrameRef} {e : Expr}
    (he : (same host).Good (exprParts e)) {s : State} (hs : (same host).Holds s) :
    misplacedAt host E f e s = false := by
  unfold misplacedAt
  split
  · rename_i op l r
    rw [exprParts, Contract.good_cons] at he
    have hl : l.isTarget = true := he.1
    rw [hl, Bool.not_true]
  · rename_i op e
    rw [exprParts, Contract.good_cons] at he
    have hl : e.isTarget = true := he.1
    rw [hl, Bool.not_true]
  · rename_i callee args
    rw [exprParts, Contract.good_cons, Contract.good_append] at he
    have hoperands := (h.evalOperands f callee args he.2.1 he.2.2 s hs).2
    split
    · rename_i c vs s' hdone
      rw [hdone] at hoperands
      split
      · rfl
      · have hbody := (h.callBody c vs s' hoperands.1).2
        split
        · rename_i hbroke
          rw [hbroke] at hbody
          cases hbody.2
        · rename_i hcontinued
          rw [hcontinued] at hbody
          cases hbody.2
        · rfl
    · rfl
  · rfl

/-- An answer at misplaced spots would make no difference. -/
theorem diverted_same (A : Evaluator) (n : Nat) :
    (same host).Related (diverted host (misplaced host) A n) (evaluator host n) := by
  induction n with
  | zero => exact ⟨.inl rfl, fun _ _ _ => agree_exhausted, fun _ _ _ _ => agree_exhausted⟩
  | succ n ih =>
      refine ih.step (.inl rfl) ?_ ?_ same_catches
      · intro f e he s hs
        exact .inl ⟨diverted_expr (not_misplacedAt ih he hs), rfl⟩
      · intro p f t _ s _
        exact .inl ⟨diverted_stmt rfl, rfl⟩

end SmallScript.Eval
