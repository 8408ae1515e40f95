import SmallScript.Conformance.Report
import SmallScript.Proofs.Eval.Uncatchable
import SmallScript.Proofs.Session.Meets
import Mathlib

namespace SmallScript

open Eval Comparison

namespace Session

theorem evalWith_lost {host : Host} {D E : Evaluator} (h : (lost host).Related D E)
    (source : String) (s : Session) :
    s.evalWith host E source = .exhausted ∨
      s.evalWith host D source = s.evalWith host E source ∨
      (s.evalWith host E source).isUncatchable = true := by
  have hboth := h.evalWith source (Contract.lax_holds s.state)
    fun _ _ _ _ => Contract.lax_good _
  rcases hboth with hsame | ⟨view, o, o', rfl | rfl | ⟨-, hfail⟩, hD, hE⟩
  · exact .inr (.inl hsame)
  · exact .inl hE
  · exact .inr (.inl (hD.trans hE.symm))
  · obtain ⟨e, t, rfl, he⟩ := Outcome.isUncatchable_iff.mp hfail
    exact .inr (.inr (Outcome.isUncatchable_iff.mpr ⟨e, view t, hE, he⟩))

theorem eval_isUncatchable {s : Session} {host : Host} {fuel : Nat} {source : String}
    (hraises : s.Meets host fuel (raises host) source)
    (hover : ¬s.Meets host fuel overrides source) :
    s.eval host fuel source = .exhausted ∨ (s.eval host fuel source).isUncatchable = true := by
  have hD := hraises.exhausted
  have hE := evalWith_of_not_meets hover silent
  have hlost := evalWith_lost (lost_related host fuel) source s
  rw [hD, hE] at hlost
  rcases hlost with hgives | hsame | hfail
  · exact .inl hgives
  · exact .inl hsame.symm
  · exact .inr hfail

theorem verdictOf_ne_pass {source : String} {o : Outcome Session Value}
    (h : o = .exhausted ∨ o.isUncatchable = true) : Conformance.verdictOf source o ≠ .pass := by
  rcases h with rfl | h
  · exact nofun
  · obtain ⟨e, t, rfl, he⟩ := Outcome.isUncatchable_iff.mp h
    simp only [Conformance.verdictOf, he, Bool.and_false, Bool.false_eq_true, if_false]
    cases e with
    | thrown v =>
        simp only [Conformance.Verdict.ofFault]
        split <;> exact nofun
    | _ => exact nofun

/-- A text in which a builtin raises a fault that cannot be caught fails with one, if at all it
comes to an end, and is no passed test, unless a finalizer overrides. There the fault is lost. -/
theorem uncatchable_unless_overridden (s : Session) (host : Host) (fuel : Nat) (source : String)
    (hraises : s.Meets host fuel (raises host) source) :
    (¬s.Meets host fuel overrides source →
      (∀ v t, s.eval host fuel source ≠ .done v t) ∧
        (∀ e t, s.eval host fuel source = .fail e t → e.isCatchable = false) ∧
        Conformance.verdictOf source (s.eval host fuel source) ≠ .pass) ∧
      ∀ E f t state, overridesAt E f t state = true →
        (evalStmt E f t state).isUncatchable = false := by
  refine ⟨?_, fun _ _ _ _ h => not_isUncatchable_of_overridesAt h⟩
  intro hover
  have hend := eval_isUncatchable hraises hover
  refine ⟨?_, ?_, verdictOf_ne_pass hend⟩
  · intro v t hdone
    rw [hdone] at hend
    rcases hend with h | h <;> cases h
  · intro e t hfail
    rw [hfail] at hend
    rcases hend with h | h
    · cases h
    · simpa only [Outcome.isUncatchable, Bool.not_eq_true'] using h

set_option maxRecDepth 2000 in
/-- A finalizer that ends normally keeps the fault. -/
theorem uncatchable_through_finalizer :
    (start false).Meets (Conformance.silentHost 8) 8 (raises (Conformance.silentHost 8))
        "try { $ERROR() } finally { }" ∧
      ¬(start false).Meets (Conformance.silentHost 8) 8 overrides "try { $ERROR() } finally { }" ∧
      Conformance.verdictOf "try { $ERROR() } finally { }"
        ((start false).eval (Conformance.silentHost 8) 8 "try { $ERROR() } finally { }") ≠ .pass := by
  have hsilent : (start false).evalWith (Conformance.silentHost 8)
      (diverted (Conformance.silentHost 8) (raises (Conformance.silentHost 8)) silent 8)
      "try { $ERROR() } finally { }" = .exhausted := by cbv
  have hplain : ((start false).eval (Conformance.silentHost 8) 8
      "try { $ERROR() } finally { }").isUncatchable = true := by cbv
  have hends : ((start false).evalWith (Conformance.silentHost 8)
      (diverted (Conformance.silentHost 8) overrides silent 8)
      "try { $ERROR() } finally { }").isUncatchable = true := by cbv
  have hraises : (start false).Meets (Conformance.silentHost 8) 8
      (raises (Conformance.silentHost 8)) "try { $ERROR() } finally { }" := by
    refine ⟨silent, fun h => ?_⟩
    rw [← h, hsilent] at hplain
    cases hplain
  have hover : ¬(start false).Meets (Conformance.silentHost 8) 8 overrides
      "try { $ERROR() } finally { }" := by
    refine not_meets_of_ends fun h => ?_
    rw [h] at hends
    cases hends
  exact ⟨hraises, hover, ((uncatchable_unless_overridden _ _ 8 _ hraises).1 hover).2.2⟩

/-- A finalizer that leaves a loop makes a passed test of a failed one. -/
example : (start false).eval (Conformance.silentHost 8) 10
    "do { try { $ERROR() } finally { break } } while (a)" matches .done _ _ := by cbv

end Session

end SmallScript
