import SmallScript.Proofs.Eval.Depth
import Mathlib

namespace SmallScript

def Host.within (host : Host) (limit : Nat) : Host := { host with maxDepth := limit }

namespace Eval

open Effect Comparison

/-- Whether a function is called with as many calls in progress as the host admits. -/
def overflowsAt (host : Host) (E : Evaluator) (f : FrameRef) : Expr → State → Bool
  | .call callee args, s =>
    match evalOperands E f callee args s with
    | .done (.closure _, _) s => decide (host.maxDepth ≤ s.depth)
    | _ => false
  | _, _ => false

/-- The calls that are refused because too many are in progress. -/
def overflows (host : Host) : Spots := ⟨overflowsAt host, fun _ _ _ _ => false⟩

variable {host : Host} {limit n : Nat} {f : FrameRef} {s : State} {D E : Evaluator}

/-- Of such a call nothing is left but the evaluation of callee and arguments. -/
theorem evalExpr_of_overflowsAt {e : Expr} (h : overflowsAt host E f e s = true) :
    ∃ s', evalExpr host E f e s = .fail .tooDeep s' := by
  unfold overflowsAt at h
  split at h
  · rename_i callee args
    split at h
    · rename_i c vs s' hdone
      refine ⟨s', ?_⟩
      rw [evalExpr, evalCall, bind_apply, hdone]
      show callClosure host E c vs s' = _
      rw [callClosure_apply, if_pos (of_decide_eq_true h)]
    · cases h
  · cases h

theorem callClosure_within (hlimit : host.maxDepth ≤ limit) (hdepth : s.depth < host.maxDepth)
    (c : ClosureRef) (args : List Value) :
    callClosure host D c args s = callClosure (host.within limit) D c args s := by
  have hwithin : ¬(host.within limit).maxDepth ≤ s.depth :=
    Nat.not_le_of_lt (Nat.lt_of_lt_of_le hdepth hlimit)
  rw [callClosure_apply, callClosure_apply, if_neg (Nat.not_le_of_lt hdepth), if_neg hwithin]

theorem evalExpr_within (hlimit : host.maxDepth ≤ limit) (hD : (below host).Related D E) {e : Expr}
    (h : overflowsAt host E f e s = false) :
    evalExpr host D f e s = evalExpr (host.within limit) D f e s := by
  cases e with
  | call callee args =>
      simp only [evalExpr, evalCall]
      rw [bind_apply, bind_apply]
      obtain hgives | hsame := (hD.evalOperands f callee args (Contract.lax_good _)
        (Contract.lax_good _) s (Contract.lax_holds s)).1
      · rw [hgives]
        rfl
      · -- the operands are those of the plain run, which decides whether the call is refused
        rw [hsame]
        cases hdone : evalOperands E f callee args s with
        | fail e s' => rfl
        | exhausted => rfl
        | done r s' =>
            obtain ⟨v, vs⟩ := r
            cases v with
            | closure c =>
                rw [overflowsAt, hdone] at h
                exact callClosure_within hlimit (Nat.lt_of_not_le (of_decide_eq_false h)) c vs
            | _ => rfl
  | _ => rfl

/-- Giving up at the calls that are refused, an evaluator has no other outcome than one under a
larger limit. -/
theorem diverted_below_within (hlimit : host.maxDepth ≤ limit) (n : Nat) :
    (below (host.within limit)).Related (diverted host (overflows host) silent n)
      (evaluator (host.within limit) n) := by
  induction n with
  | zero => exact ⟨.inl rfl, fun _ _ _ => agree_exhausted, fun _ _ _ _ => agree_exhausted⟩
  | succ n ih =>
      refine ih.step (.inl rfl) ?_ (fun _ _ _ _ _ _ => .inl ⟨rfl, rfl⟩) below_catches
      intro f e _ s _
      cases hP : (overflows host).expr (evaluator host n) f e s with
      | true => exact .inr ⟨.inl (diverted_expr_spot hP), Contract.lax_ends _ (fun _ => trivial) _⟩
      | false =>
          have hsame := evalExpr_within hlimit (silent_below_evaluator host (overflows host) n) hP
          exact .inl ⟨(diverted_expr hP).trans hsame, rfl⟩

end Eval

end SmallScript
