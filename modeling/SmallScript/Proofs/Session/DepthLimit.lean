import SmallScript.Conformance.Report
import SmallScript.Proofs.Eval.DepthLimit
import SmallScript.Proofs.Session.Meets
import SmallScript.Proofs.Session.Refusal
import Mathlib

namespace SmallScript.Session

open Conformance (silentHost)
open Eval

variable {host : Host} {limit fuel : Nat} {entries : List Entry} {source : String} {s : Session}

theorem evalWith_within (E : Evaluator) (source : String) (s : Session) :
    s.evalWith (host.within limit) E source = s.evalWith host E source := rfl

theorem eval_within (hlimit : host.maxDepth ≤ limit)
    (hends : s.eval host fuel source ≠ .exhausted)
    (hcalls : ¬s.Meets host fuel (overflows host) source) :
    s.eval (host.within limit) fuel source = s.eval host fuel source := by
  have hdiverted := evalWith_of_not_meets hcalls silent
  have hbelow := evalWith_below (diverted_below_within hlimit fuel) source s
  rw [evalWith_within, hdiverted] at hbelow
  exact (hbelow.resolve_left hends).symm

/-- The session takes the texts to their ends, and no function call in them is refused because too
many are in progress. -/
inductive StaysWithin (host : Host) (fuel : Nat) : List Entry → Session → Prop
  | nil (s : Session) : StaysWithin host fuel [] s
  | text {source : String} {entries : List Entry} {s t : Session}
      (hends : (s.eval host fuel source).state? = some t)
      (hcalls : ¬s.Meets host fuel (overflows host) source)
      (hrest : StaysWithin host fuel entries t) : StaysWithin host fuel (source :: entries) s
  | echo {isOn : Bool} {entries : List Entry} {s : Session}
      (hrest : StaysWithin host fuel entries (s.setInteractive isOn)) :
      StaysWithin host fuel (.echo isOn :: entries) s

/-- It is enough that the texts come to their ends where the evaluator gives up at such calls. -/
theorem StaysWithin.of_diverted {t : Session}
    (h : (s.evalWith host (diverted host (overflows host) silent fuel) source).state? = some t)
    (hrest : StaysWithin host fuel entries t) : StaysWithin host fuel (source :: entries) s := by
  have hends : s.evalWith host (diverted host (overflows host) silent fuel) source ≠ .exhausted := by
    intro hgives
    rw [hgives] at h
    cases h
  have hplain := (evalWith_below (silent_below_evaluator host _ fuel) source s).resolve_left hends
  refine .text ?_ (not_meets_of_ends hends) hrest
  rw [Session.eval, ← hplain, h]

/-- The calls that are refused are those that fail with `tooDeep`. If there is none in a session,
then under a larger limit every text has the same answer, a value or a fault with the memory and the
output behind it, and the session is the same after every text. -/
theorem answers_within (hlimit : host.maxDepth ≤ limit) (h : StaysWithin host fuel entries s) :
    (∀ E f e state, overflowsAt host E f e state = true →
      ∃ state', evalExpr host E f e state = .fail .tooDeep state') ∧
    answers (host.within limit) fuel entries s = answers host fuel entries s ∧
    ∀ before, before <+: entries →
      evalAll (host.within limit) fuel before s = evalAll host fuel before s := by
  refine ⟨fun _ _ _ _ => evalExpr_of_overflowsAt, ?_⟩
  induction h with
  | nil s =>
      refine ⟨rfl, fun before hbefore => ?_⟩
      rw [List.prefix_nil.mp hbefore]
      rfl
  | @text source entries s t hends hcalls _ ih =>
      have heval : s.eval (host.within limit) fuel source = s.eval host fuel source := by
        refine eval_within hlimit (fun h => ?_) hcalls
        rw [h] at hends
        cases hends
      refine ⟨by simp only [answers, answer, take, heval, hends, ih.1], fun before hbefore => ?_⟩
      cases before with
      | nil => rfl
      | cons r before =>
          obtain ⟨rfl, hrest⟩ := List.cons_prefix_cons.mp hbefore
          rw [evalAll, evalAll, take, take, heval, hends]
          exact ih.2 before hrest
  | @echo isOn entries s _ ih =>
      refine ⟨congrArg _ ih.1, fun before hbefore => ?_⟩
      cases before with
      | nil => rfl
      | cons e before =>
          obtain ⟨rfl, hrest⟩ := List.cons_prefix_cons.mp hbefore
          exact ih.2 before hrest

set_option maxRecDepth 2000 in
/-- A function that calls itself once and then throws, in a text that declares it and in one that
catches what it throws. The calls go as deep as the smaller limit admits. -/
theorem answers_within_recursion :
    StaysWithin (silentHost 2) 12 ["function f(a) { if (a) f(); else throw a }",
        "try { f(true) } catch (e) { log(e) }"] (start false) ∧
      answers ((silentHost 2).within 5) 12 ["function f(a) { if (a) f(); else throw a }",
          "try { f(true) } catch (e) { log(e) }"] (start false) =
        answers (silentHost 2) 12 ["function f(a) { if (a) f(); else throw a }",
          "try { f(true) } catch (e) { log(e) }"] (start false) := by
  have hends : (((start false).evalWith (silentHost 2)
      (diverted (silentHost 2) (overflows (silentHost 2)) silent 12)
      "function f(a) { if (a) f(); else throw a }").state?.bind fun t =>
        (t.evalWith (silentHost 2) (diverted (silentHost 2) (overflows (silentHost 2)) silent 12)
          "try { f(true) } catch (e) { log(e) }").state?).isSome = true := by cbv
  obtain ⟨u, hu⟩ := Option.isSome_iff_exists.mp hends
  obtain ⟨t, ht, hu⟩ := Option.bind_eq_some_iff.mp hu
  have hstays := StaysWithin.of_diverted ht (.of_diverted hu (.nil u))
  exact ⟨hstays, (answers_within (by decide) hstays).2.1⟩

end SmallScript.Session
