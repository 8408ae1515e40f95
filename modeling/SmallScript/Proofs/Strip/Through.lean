import SmallScript.Proofs.Strip.Step
import SmallScript.Proofs.Eval.Diversion
import Mathlib

namespace SmallScript

def Part.layers : Part → Nat
  | .expr e => e.layers
  | _ => 0

namespace Eval

open Effect Comparison

/-- The evaluator to a depth of `n`, where parentheses do not count. -/
def through (host : Host) : Nat → Evaluator
  | 0 => silent
  | n + 1 =>
    ⟨n, fun f e s => evalExpr host (through host n) f e.bare s,
      fun f t s => evalStmt (through host n) f t s⟩

theorem through_mirrored (host : Host) (n : Nat) : Mirrored (through host n) (through host n) := by
  induction n with
  | zero =>
      exact ⟨rfl, fun _ _ => mirrors_exhausted, fun _ _ => mirrors_exhausted, fun _ _ => rfl⟩
  | succ n ih =>
      refine ⟨rfl, fun f e => ?_, fun f t => ih.evalStmt f t, fun _ _ => rfl⟩
      have hstep : Mirrors (evalExpr host (through host n) f e.bare.strip)
          (evalExpr host (through host n) f e.bare) := ih.evalExpr f e.bare_ne_paren
      rw [e.strip_bare, ← e.bare_strip] at hstep
      exact hstep

variable {host : Host}

/-- Every evaluator keeps a contract that is kept by each step. -/
theorem evaluator_self {R : Comparison host} (hR : R.Catches) (n : Nat) :
    R.Related (evaluator host n) (evaluator host n) := by
  induction n with
  | zero => exact ⟨.inl rfl, fun _ _ _ => agree_exhausted, fun _ _ _ _ => agree_exhausted⟩
  | succ n ih =>
      exact ih.step (.inl rfl) (fun _ _ _ _ _ => .inl ⟨rfl, rfl⟩)
        (fun _ _ _ _ _ _ => .inl ⟨rfl, rfl⟩) hR

theorem Comparison.Related.evalStmt_of_catches {R : Comparison host} {D E : Evaluator} (h : R.Related D E)
    (hR : R.Catches) (p : Place) (f : FrameRef) (t : Stmt) (ht : R.Good (stmtParts p t)) :
    R.AgreeOn (R.allowed p) (Eval.evalStmt D f t) (Eval.evalStmt E f t) := by
  refine h.evalStmt p f t ht ?_
  rintro body handler finalizer rfl
  exact h.evalTry hR p f body handler finalizer ht

theorem evaluator_below_through {n m : Nat} (hn : n ≤ m) :
    (below host).Related (evaluator host n) (through host m) := by
  have hgives {α : Type} (o : Outcome State α) : (below host).like .exhausted o := .inl rfl
  induction n generalizing m with
  | zero =>
      exact ⟨.inr ⟨Nat.zero_le _, hgives⟩,
        fun _ _ _ _ _ => ⟨hgives _, Contract.lax_ends _ (fun _ => trivial) _⟩,
        fun _ _ _ _ _ _ => ⟨hgives _, Contract.lax_ends _ (fun _ => trivial) _⟩⟩
  | succ n ih =>
      obtain ⟨m, rfl⟩ := Nat.exists_eq_add_of_le' hn
      have hm : n ≤ m + n := Nat.le_add_left n m
      refine ⟨.inr ⟨hm, hgives⟩, fun f e he => ?_, fun p f t ht => ?_⟩
      · cases e with
        | paren e => exact (ih (Nat.le_succ_of_le hm)).expr f e (Contract.lax_good _)
        | _ => exact (ih hm).evalExpr f _ he
      · exact (ih hm).evalStmt_of_catches below_catches p f t ht

def Contract.shallow (host : Host) (k : Nat) : Contract host :=
  { Contract.lax host with
    ok := fun x => x.layers ≤ k
    ok_empty := Nat.zero_le k
    allowed_broke := fun _ _ => trivial
    allowed_continued := fun _ _ => trivial
    allowed_returned := fun _ _ _ _ => trivial
    admits_assign := fun _ _ _ _ => .inr trivial
    admits_update := fun _ _ _ => .inr trivial }

def Comparison.belowShallow (host : Host) (k : Nat) : Comparison host :=
  { below host with toContract := .shallow host k }

theorem belowShallow_catches (host : Host) (k : Nat) : (belowShallow host k).Catches :=
  @below_catches host

theorem good_bare {K : Contract host} {e : Expr} (h : K.Good (exprParts e)) :
    K.Good (exprParts e.bare) := by
  fun_induction Expr.bare e with
  | case1 e ih =>
      rw [exprParts, K.good_cons] at h
      exact ih h.2
  | case2 e _ => exact h

theorem layers_of_good {k : Nat} {e : Expr} (h : (Contract.shallow host k).Good (exprParts e)) :
    e.layers ≤ k := by
  cases e <;> exact h _ (List.mem_cons_self ..)

theorem evaluator_bare (n : Nat) (f : FrameRef) (e : Expr) :
    (evaluator host (n + e.layers + 1)).expr f e = evalExpr host (evaluator host n) f e.bare := by
  fun_induction Expr.bare e with
  | case1 e ih => exact ih
  | case2 e h => cases e <;> first | rfl | exact (h _ rfl).elim

theorem through_below_evaluator {k n m : Nat} (hn : n * (k + 1) ≤ m) :
    (belowShallow host k).Related (through host n) (evaluator host m) := by
  have hgives {α : Type} (o : Outcome State α) : (belowShallow host k).like .exhausted o := .inl rfl
  induction n generalizing m with
  | zero =>
      have hself := evaluator_self (belowShallow_catches host k) m
      exact ⟨.inr ⟨Nat.zero_le _, hgives⟩,
        fun f e he s hs => ⟨hgives _, (hself.expr f e he s hs).2⟩,
        fun p f t ht s hs => ⟨hgives _, (hself.stmt p f t ht s hs).2⟩⟩
  | succ n ih =>
      rw [Nat.succ_mul] at hn
      have hfuel : n ≤ n * (k + 1) := Nat.le_mul_of_pos_right n k.succ_pos
      obtain ⟨m, rfl⟩ : ∃ m', m = m' + 1 := ⟨m - 1, by omega⟩
      have hm : n ≤ m := by omega
      refine ⟨.inr ⟨hm, hgives⟩, fun f e he => ?_, fun p f t ht => ?_⟩
      · have hlayers := layers_of_good he
        obtain ⟨j, rfl⟩ : ∃ j, m = j + e.layers := ⟨m - e.layers, by omega⟩
        rw [evaluator_bare]
        exact (ih (by omega)).evalExpr f e.bare (good_bare he)
      · exact (ih (by omega)).evalStmt_of_catches (belowShallow_catches host k) p f t ht

end Eval

end SmallScript
