import SmallScript.Proofs.Eval.Diversion
import Mathlib

namespace SmallScript.Eval

open Comparison Filter

variable {host : Host}

/-- An evaluator with more fuel has no other outcome than one that gives up earlier. -/
theorem evaluator_below {n m : Nat} (hn : n ≤ m) :
    (below host).Related (evaluator host n) (evaluator host m) := by
  have hgives {α : Type} (o : Outcome State α) : (below host).like .exhausted o := .inl rfl
  induction n generalizing m with
  | zero =>
      exact ⟨.inr ⟨Nat.zero_le _, hgives⟩,
        fun _ _ _ _ _ => ⟨hgives _, Contract.lax_ends _ (fun _ => trivial) _⟩,
        fun _ _ _ _ _ _ => ⟨hgives _, Contract.lax_ends _ (fun _ => trivial) _⟩⟩
  | succ n ih =>
      obtain ⟨m, rfl⟩ := Nat.exists_eq_add_of_le' hn
      have hm : n ≤ m + n := Nat.le_add_left n m
      exact (ih hm).step (.inr ⟨hm, hgives⟩) (fun _ _ _ _ _ => .inl ⟨rfl, rfl⟩)
        (fun _ _ _ _ _ _ => .inl ⟨rfl, rfl⟩) below_catches

/-- From the state `s` the expression comes to an end, with the outcome `o`. -/
def Settles (host : Host) (f : FrameRef) (e : Expr) (s : State) (o : Outcome State Value) : Prop :=
  o ≠ .exhausted ∧ ∃ n, (evaluator host n).expr f e s = o

variable {f f' : FrameRef} {e e' : Expr} {s s' : State} {o o' : Outcome State Value}

theorem settles_iff_eventually :
    Settles host f e s o ↔ o ≠ .exhausted ∧ ∀ᶠ n in atTop, (evaluator host n).expr f e s = o := by
  constructor
  · rintro ⟨ho, n, hn⟩
    refine ⟨ho, eventually_atTop.mpr ⟨n, fun m hm => ?_⟩⟩
    obtain h | h := ((evaluator_below hm).expr f e (Contract.lax_good _) s (Contract.lax_holds s)).1
    · exact (ho (hn.symm.trans h)).elim
    · exact h.symm.trans hn
  · rintro ⟨ho, h⟩
    exact ⟨ho, h.exists⟩

/-- Only the fuels that are large enough count, and what a step of the evaluator takes of them does
not. -/
theorem settles_iff_of_add (k : Nat) :
    Settles host f e s o ↔
      o ≠ .exhausted ∧ ∀ᶠ n in atTop, (evaluator host (n + k)).expr f e s = o := by
  have hadd : (∀ᶠ n in atTop, (evaluator host n).expr f e s = o) ↔
      ∀ᶠ n in map (· + k) atTop, (evaluator host n).expr f e s = o := by
    rw [map_add_atTop_eq_nat]
  exact settles_iff_eventually.trans (and_congr_right fun _ => hadd.trans eventually_map)

theorem settles_congr (k k' : Nat)
    (h : ∀ᶠ n in atTop,
      (evaluator host (n + k)).expr f e s = (evaluator host (n + k')).expr f' e' s') :
    Settles host f e s o ↔ Settles host f' e' s' o := by
  rw [settles_iff_of_add k, settles_iff_of_add k']
  exact and_congr_right fun _ => eventually_congr (h.mono fun n hn => by rw [hn])

end SmallScript.Eval
