import SmallScript.Proofs.Eval.Tracking.Program
import SmallScript.Proofs.Memory.Global
import SmallScript.Proofs.Session.Answer
import Mathlib

namespace SmallScript.Session

open Declares Eval Early

def names (s : Session) : Names := s.analyzer.scopes.headD (Names.fresh true)

def context (s : Session) (program : Program) : Context :=
  [.program s.names.lexical s.names.vars program]

/-- The run of a text comes to a moment of `P`: another answer there could change its outcome. A
run that would never end has no outcome of its own, so runs that are halted count as well. -/
def MeetsAt (s : Session) (host : Host) (fuel : Nat) (P : Moments) (source : String) : Prop :=
  ∃ program A Q, Program.parse source = .ok program ∧
    s.evalWith host (watched host P A Q fuel (s.context program)) source ≠
      s.evalWith host (diverted host Q halting fuel) source

/-- The analyzer accepts the text, which is the program. -/
structure Takes (s : Session) (source : String) (program : Program) (b : Analyzer) : Prop where
  parses : Program.parse source = .ok program
  accepts : analyze program s.analyzer = .ok () b

structure Kept (K : Discipline) (s : Session) : Prop where
  ready : s.Ready
  global : K.global = s.global
  holds : K.Holds s.state
  isBoundary : (s.state.memory.frameAt s.global).isBoundary = true

structure Admits (K : Discipline) (s : Session) (program : Program) : Prop where
  good : K.Good (stmtsParts .top program)
  ready : ∀ s', K.Holds s' →
    (entered s.global program s.state).Grows (inFrame s.global (mutables (hoisted program))) s' →
    s'.memory.BindsFunctions s.global program → K.ready (s.context program) s.global program s'

variable {K : Discipline} {host : Host} {fuel : Nat} {source : String} {s t : Session}
  {program : Program} {b : Analyzer}

theorem Kept.lt (hs : s.Kept K) : s.global < s.state.memory.frames.size :=
  hs.global ▸ hs.holds.rooted.global_lt

theorem Kept.holds_entered (hs : s.Kept K) (program : Program) :
    K.Holds (entered s.global program s.state) ∧
      s.state.memory.Grows nowhere (entered s.global program s.state).memory := by
  have hlt := hs.lt
  refine ⟨⟨hs.holds.rooted.declareVars hlt hs.isBoundary _, ?_⟩,
    Memory.grows_declareVars hlt hs.isBoundary fun x _ => .inl ?_⟩
  · exact (Memory.frameAt_declareVars hlt hs.isBoundary _).2.1 ▸ hs.holds.closures
  · exact hs.global ▸ hs.holds.rooted.global_parent

theorem Kept.runs (host : Host) (hs : s.Kept K) (hprogram : s.Admits K program)
    {D : Context → Evaluator} {E : Evaluator} (h : K.Related D E) :
    runAccepted host (D (s.context program)) s.global s.interactive program s.state =
        runAccepted host E s.global s.interactive program s.state ∧
      ∀ s', (runAccepted host E s.global s.interactive program s.state).state? = some s' →
        K.Holds s' ∧ (entered s.global program s.state).Grows
          (inFrame s.global (mutables (hoisted program) ++ declaredBy program)) s' := by
  have hrun := h.runAccepted host (s.context program) s.interactive hprogram.good
    (hs.global ▸ (hs.holds_entered program).1) (hs.global ▸ hprogram.ready)
  rw [hs.global] at hrun
  exact ⟨hrun.1, fun s' hs' => (hrun.2 s' hs').imp_right Discipline.Leads.grows⟩

/-- A run comes to no moment of `P` if whatever is answered there is tracked by the run that has no
such moments. -/
theorem Kept.not_meetsAt_of_related (hs : s.Kept K) {P : Moments}
    (h : ∀ A Q, ∃ D, K.Related D (diverted host Q halting fuel) ∧
      ∀ program, D (s.context program) = watched host P A Q fuel (s.context program))
    (hadmits : ∀ program b, s.Takes source program b → s.Admits K program) :
    ¬s.MeetsAt host fuel P source := by
  rintro ⟨program, A, Q, hp, hne⟩
  obtain ⟨D, hrelated, hD⟩ := h A Q
  cases hb : analyze program s.analyzer with
  | error e b => exact hne (by rw [evalWith_refused hp hb, evalWith_refused hp hb])
  | ok u b =>
      have hrun := hs.runs host (hadmits program b ⟨hp, hb⟩) hrelated
      rw [hD] at hrun
      exact hne (by rw [evalWith_accepted hp hb, evalWith_accepted hp hb, hrun.1])

/-- A run comes to no moment that the discipline excludes. -/
theorem Kept.not_meetsAt (hs : s.Kept K) {P : Moments} (hP : K.Excludes host P)
    (hadmits : ∀ program b, s.Takes source program b → s.Admits K program) :
    ¬s.MeetsAt host fuel P source :=
  hs.not_meetsAt_of_related (fun A Q => ⟨_, hP.related A Q fuel, fun _ => rfl⟩) hadmits

theorem meetsAt_of_first {P : Moments} {t : Stmt} {ts : List Stmt} {state : State} {n : Nat}
    (h : s.Takes source (t :: ts) b)
    (hhoist : hoistFunctions s.global (t :: ts) (entered s.global (t :: ts) s.state) =
      .done () state)
    (hP : P.stmt (s.context (t :: ts)) (evaluator host n) s.global t state) :
    s.MeetsAt host (n + 1) P source := by
  let Q : Spots := ⟨fun _ _ _ _ => false, fun _ _ _ _ => false⟩
  let A (e : Fault) : Evaluator := ⟨0, fun _ _ => Effect.fail e, fun _ _ => Effect.fail e⟩
  have hanswer (e : Fault) :
      s.evalWith host (watched host P (A e) Q (n + 1) (s.context (t :: ts))) source =
        .fail e { s with analyzer := b, state } := by
    have hstmt : (watched host P (A e) Q (n + 1) (s.context (t :: ts))).stmt s.global t state =
        .fail e state := if_pos hP
    have hbody : runBody (watched host P (A e) Q (n + 1) (s.context (t :: ts))) s.global (t :: ts)
        (entered s.global (t :: ts) s.state) = .fail e state := by
      rw [runBody, Effect.bind_apply, hhoist]
      change runInOrder _ s.global none (t :: ts) state = _
      rw [runInOrder, Effect.bind_apply, hstmt]
      rfl
    rw [evalWith_accepted h.parses h.accepts, runAccepted_apply, Effect.bind_apply, hbody]
    rfl
  by_contra hnever
  have hsame (e : Fault) : s.evalWith host (diverted host Q halting (n + 1)) source =
      .fail e { s with analyzer := b, state } := by
    by_contra hne
    exact hnever ⟨_, A e, Q, h.parses, fun heq => hne (heq.symm.trans (hanswer e))⟩
  cases (hsame .tooDeep).symm.trans (hsame .arrayLength)

/-- What a text may have done to a session: nothing to its memory if it was refused; else the
global frame has what the program declares. -/
inductive Leaves (s : Session) (source : String) (t : Session) : Prop where
  | refused (hstate : t.state = s.state) (hscopes : t.analyzer.scopes = s.analyzer.scopes)
  | ran (program : Program) (htakes : s.Takes source program t.analyzer)
      (hgrows : s.state.memory.Grows
        (inFrame s.global (mutables (hoisted program) ++ declaredBy program)) t.state.memory)

theorem Kept.eval (hs : s.Kept K) (hgains : ∀ x, K.gains x)
    (hadmits : ∀ program b, s.Takes source program b → s.Admits K program)
    (h : (s.eval host fuel source).state? = some t) :
    t.Kept K ∧ t.global = s.global ∧ s.Leaves source t := by
  have hready := hs.ready.eval h
  rcases hs.ready.taken source with ⟨e, b, -, -, hscopes, heval⟩ | ⟨program, b, hp, hb, -, heval⟩
  · rw [Session.eval, heval] at h
    cases h
    exact ⟨⟨hready, hs.global, hs.holds, hs.isBoundary⟩, rfl, .refused rfl hscopes⟩
  · rw [Session.eval, heval, Outcome.state?_mapState, Option.map_eq_some_iff] at h
    obtain ⟨state, hstate, rfl⟩ := h
    obtain ⟨-, hends⟩ := hs.runs host (hadmits program b ⟨hp, hb⟩)
      (Discipline.related_self hgains host fuel)
    obtain ⟨hholds, hran⟩ := hends state hstate
    have hgrows := (hs.holds_entered program).2.of_nowhere.trans hran.memory
    refine ⟨⟨hready, hs.global, hholds, ?_⟩, rfl, .ran program ⟨hp, hb⟩ hgrows⟩
    exact (hgrows.isBoundary _ hs.lt).trans hs.isBoundary

/-- A discipline that admits every program that is taken is kept by all the texts of a session. -/
theorem Kept.evalAll (entries : List Entry) (hs : s.Kept K) (hgains : ∀ x, K.gains x)
    (hadmits : ∀ (u : Session) r, .text r ∈ entries → ∀ program b, u.Kept K →
      u.Takes r program b → u.Admits K program)
    (h : evalAll host fuel entries s = some t) : t.Kept K := by
  induction entries generalizing s with
  | nil => exact Option.some.inj h ▸ hs
  | cons e entries ih =>
      obtain ⟨u, hu, ht⟩ := Option.bind_eq_some_iff.mp h
      have hfirst : u.Kept K := by
        cases e with
        | text r =>
            exact (hs.eval hgains
              (fun program b => hadmits s r List.mem_cons_self program b hs) hu).1
        | echo isOn =>
            cases hu
            exact ⟨hs.ready, hs.global, hs.holds, hs.isBoundary⟩
      exact ih hfirst (fun u r hr => hadmits u r (List.mem_cons_of_mem _ hr)) ht

theorem start_kept (interactive : Bool) (hK : K.global = (start interactive).global) :
    (start interactive).Kept K := by
  have hrooted : (start interactive).state.memory.Rooted (start interactive).global :=
    Memory.rooted_newGlobal
  refine ⟨openIn_ready initialState interactive, hK, ⟨hK ▸ hrooted, ?_⟩,
    Memory.isBoundary_newGlobal⟩
  intro c hc
  have hclosures : (start interactive).state.memory.closures = #[] :=
    initialState.memory.closures_newGlobal
  rw [hclosures] at hc
  exact (Array.not_mem_empty c hc).elim

end SmallScript.Session
