import SmallScript.Proofs.Eval.Placement
import SmallScript.Proofs.Session.Meets
import Mathlib

namespace SmallScript.Session

open Eval Comparison

structure Sound (s : Session) (host : Host) : Prop where
  ready : s.Ready
  holds : (Contract.strict host).Holds s.state

variable {host : Host} {fuel : Nat} {source : String} {s : Session}

theorem start_sound (host : Host) (interactive : Bool) : (start interactive).Sound host := by
  refine ⟨openIn_ready initialState interactive, ?_⟩
  intro c hc
  have hclosures : (start interactive).state.memory.closures = #[] :=
    initialState.memory.closures_newGlobal
  rw [hclosures] at hc
  exact (Array.not_mem_empty c hc).elim

theorem Sound.ends (hs : s.Sound host) (fuel : Nat) {program : Program} {b : Early.Analyzer}
    (hb : Early.analyze program s.analyzer = .ok () b) :
    (Contract.strict host).Ends (fun _ => True)
      (runAccepted host (evaluator host fuel) s.global s.interactive program s.state) :=
  ((diverted_same silent fuel).runAccepted s.global s.interactive program
    (hs.ready.allValid hb) s.state hs.holds).2

theorem Sound.eval (hs : s.Sound host) {t : Session}
    (h : (s.eval host fuel source).state? = some t) : t.Sound host := by
  refine ⟨hs.ready.eval h, ?_⟩
  rcases hs.ready.taken source with ⟨e, b, -, -, -, heval⟩ | ⟨program, b, -, hb, -, heval⟩
  · rw [Session.eval, heval] at h
    exact Option.some.inj h ▸ hs.holds
  · rw [Session.eval, heval, Outcome.state?_mapState, Option.map_eq_some_iff] at h
    obtain ⟨state, hstate, rfl⟩ := h
    exact (hs.ends fuel hb).holds hstate

theorem Sound.take (hs : s.Sound host) {e : Entry} {t : Session}
    (h : (s.take host fuel e).state? = some t) : t.Sound host := by
  cases e with
  | text source => exact hs.eval h
  | echo isOn =>
      cases h
      exact ⟨hs.ready, hs.holds⟩

theorem evalAll_sound (earlier : List Entry) (hs : s.Sound host) {t : Session}
    (h : evalAll host fuel earlier s = some t) : t.Sound host := by
  induction earlier generalizing s with
  | nil => exact Option.some.inj h ▸ hs
  | cons r earlier ih =>
      obtain ⟨u, hu, ht⟩ := Option.bind_eq_some_iff.mp h
      exact ih (hs.take hu) ht

theorem kind_of_isOrdinary {e : Fault} (h : e.IsOrdinary) :
    e.kind ≠ .internalError ∧ e.kind ≠ .syntaxError := by
  cases e with
  | unparsable | early | assignTarget | sinkFailed | strayJump | strayJumpInBody
  | notShortCircuited => cases h
  | _ => exact ⟨nofun, nofun⟩

theorem Sound.fault (hs : s.Sound host) (hsink : ∀ n, host.sinkFault n = none) {e : Fault}
    {t : Session} (h : s.eval host fuel source = .fail e t) :
    e.kind ≠ .internalError ∧
      (e.kind = .syntaxError → s.Refuses source ∧ t.state = s.state) := by
  rcases hs.ready.taken source with
    ⟨e', b, hrefuses, hkind, -, heval⟩ | ⟨program, b, -, hb, -, heval⟩
  · rw [Session.eval, heval] at h
    cases h
    exact ⟨by simp [hkind], fun _ => ⟨hrefuses, rfl⟩⟩
  · rw [Session.eval, heval] at h
    have hends := hs.ends fuel hb
    cases ho : runAccepted host (evaluator host fuel) s.global s.interactive program s.state with
    | done v state =>
        rw [ho] at h
        cases h
    | exhausted =>
        rw [ho] at h
        cases h
    | fail e' state =>
        rw [ho] at h hends
        cases h
        rcases hends.2 with hordinary | ⟨n, m, hn, -⟩
        · have hkind := kind_of_isOrdinary hordinary
          exact ⟨hkind.1, fun h => (hkind.2 h).elim⟩
        · rw [hsink n] at hn
          cases hn

theorem Sound.runStatements (hs : s.Sound host) {program : Program} {b : Early.Analyzer}
    (hb : Early.analyze program s.analyzer = .ok () b) {c : Completion} {state : State}
    (h : runStatements (evaluator host fuel) s.global program s.state = .done c state) :
    ∃ v, c = .normal v := by
  have hends := ((diverted_same silent fuel).runStatements s.global program
    (hs.ready.allValid hb) s.state hs.holds).2
  rw [h] at hends
  obtain ⟨-, hfits⟩ := hends
  cases c with
  | normal v => exact ⟨v, rfl⟩
  | returned v => cases hfits
  | broke => cases hfits
  | continued => cases hfits

theorem Sound.not_meets_misplaced (hs : s.Sound host) :
    ¬s.Meets host fuel (misplaced host) source := by
  rintro ⟨A, hA⟩
  have hboth := (diverted_same A fuel).evalWith source hs.holds
    fun _ _ _ hb => hs.ready.allValid hb
  rcases hboth with hsame | ⟨view, o, o', rfl, hD, hE⟩
  · exact hA hsame
  · exact hA (hD.trans hE.symm)

/-- After any texts, if the sink takes everything: no text fails with an internal fault, and with a
fault of syntax only one that is refused before it runs; a program that is accepted ends without a
jump; and no run meets a target that is none or a jump out of a function body. -/
theorem eval_faults (hsink : ∀ n, host.sinkFault n = none) (fuel : Nat) (interactive : Bool)
    (earlier : List Entry) (hs : evalAll host fuel earlier (start interactive) = some s)
    (source : String) :
    (∀ e t, s.eval host fuel source = .fail e t →
        e.kind ≠ .internalError ∧
          (e.kind = .syntaxError → s.Refuses source ∧ t.state = s.state)) ∧
      (∀ program b c state, Program.parse source = .ok program →
        Early.analyze program s.analyzer = .ok () b →
        runStatements (evaluator host fuel) s.global program s.state = .done c state →
          ∃ v, c = .normal v) ∧
      ¬s.Meets host fuel (misplaced host) source := by
  have hsound := evalAll_sound earlier (start_sound host interactive) hs
  exact ⟨fun _ _ h => hsound.fault hsink h, fun _ _ _ _ _ hb h => hsound.runStatements hb h,
    hsound.not_meets_misplaced⟩

/-- A function of an earlier text that leaves its own loop. -/
theorem eval_faults_closure :
    (∀ n, (Host.mk 8 fun _ => none).sinkFault n = none) ∧
      ∃ s, evalAll ⟨8, fun _ => none⟩ 9 ["function f() { while (f) break }"] (start false) = some s ∧
        (∀ e t, s.eval ⟨8, fun _ => none⟩ 9 "f()" = .fail e t → e.kind ≠ .internalError) ∧
        ¬s.Meets ⟨8, fun _ => none⟩ 9 (misplaced ⟨8, fun _ => none⟩) "f()" := by
  have hends : (evalAll ⟨8, fun _ => none⟩ 9 ["function f() { while (f) break }"]
      (start false)).isSome = true := by cbv
  obtain ⟨s, hs⟩ := Option.isSome_iff_exists.mp hends
  have h := eval_faults (fun _ => rfl) 9 false _ hs "f()"
  exact ⟨fun _ => rfl, s, hs, fun e t he => (h.1 e t he).1, h.2.2⟩

end SmallScript.Session
