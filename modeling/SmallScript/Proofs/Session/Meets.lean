import SmallScript.Proofs.Eval.Diversion
import SmallScript.Proofs.Session.Answer

namespace SmallScript

open Effect Eval Comparison

namespace Eval.Comparison

variable {host : Host} {R : Comparison host} {D E : Evaluator}

theorem Related.runAccepted (h : R.Related D E) (global : FrameRef) (interactive : Bool)
    (program : Program) (hp : R.Good (stmtsParts .top program)) :
    R.Agree (Session.runAccepted host D global interactive program)
      (Session.runAccepted host E global interactive program) := by
  apply (h.run global program hp).bind
  intro v
  have hecho : R.Agree (Session.echo host interactive v) (Session.echo host interactive v) := by
    cases v with
    | none => exact agree_pure trivial
    | some v =>
        cases interactive with
        | false => exact agree_pure trivial
        | true => exact (agree_look _).bind agree_writeLine
  exact hecho.bind fun _ => agree_pure trivial

/-- A text that is refused does not come to the evaluator; the outcome of any other is that of its
program, seen in the session. -/
theorem Related.evalWith (h : R.Related D E) (source : String) {s : Session}
    (hs : R.Holds s.state)
    (hgood : ∀ program b, Program.parse source = .ok program →
      Early.analyze program s.analyzer = .ok () b → R.Good (stmtsParts .top program)) :
    s.evalWith host D source = s.evalWith host E source ∨
      ∃ (view : State → Session) (o o' : Outcome State Value),
        R.like o o' ∧ s.evalWith host D source = o.mapState view ∧
          s.evalWith host E source = o'.mapState view := by
  cases hp : Program.parse source with
  | error e => exact .inl (by rw [Session.evalWith_unparsed hp, Session.evalWith_unparsed hp])
  | ok program =>
      cases hb : Early.analyze program s.analyzer with
      | error e b =>
          exact .inl (by rw [Session.evalWith_refused hp hb, Session.evalWith_refused hp hb])
      | ok u b =>
          have hrun := h.runAccepted s.global s.interactive program (hgood program b hp hb)
          exact .inr ⟨_, _, _, (hrun s.state hs).1, Session.evalWith_accepted hp hb,
            Session.evalWith_accepted hp hb⟩

end Eval.Comparison

namespace Session

theorem evalWith_below {host : Host} {D E : Evaluator} (h : (below host).Related D E)
    (source : String) (s : Session) :
    s.evalWith host D source = .exhausted ∨
      s.evalWith host D source = s.evalWith host E source := by
  have hboth := h.evalWith source (Contract.lax_holds s.state)
    fun _ _ _ _ => Contract.lax_good _
  rcases hboth with hsame | ⟨view, o, o', rfl | rfl, hD, hE⟩
  · exact .inr hsame
  · exact .inl hD
  · exact .inr (hD.trans hE.symm)

/-- The run of a text meets a spot: another answer there could change its outcome. -/
def Meets (s : Session) (host : Host) (fuel : Nat) (P : Spots) (source : String) : Prop :=
  ∃ A, s.evalWith host (diverted host P A fuel) source ≠ s.eval host fuel source

/-- A run that comes to an end although it gives up at the spots meets none. -/
theorem not_meets_of_ends {s : Session} {host : Host} {fuel : Nat} {P : Spots} {source : String}
    (h : s.evalWith host (diverted host P silent fuel) source ≠ .exhausted) :
    ¬s.Meets host fuel P source := by
  rintro ⟨A, hA⟩
  have hdiverted := (evalWith_below (silent_below_diverted host P A fuel) source s).resolve_left h
  have hplain := (evalWith_below (silent_below_evaluator host P fuel) source s).resolve_left h
  exact hA (hdiverted.symm.trans hplain)

theorem Meets.exhausted {s : Session} {host : Host} {fuel : Nat} {P : Spots} {source : String}
    (h : s.Meets host fuel P source) :
    s.evalWith host (diverted host P silent fuel) source = .exhausted :=
  Classical.not_not.mp fun hends => not_meets_of_ends hends h

theorem evalWith_of_not_meets {s : Session} {host : Host} {fuel : Nat} {P : Spots}
    {source : String} (h : ¬s.Meets host fuel P source) (A : Evaluator) :
    s.evalWith host (diverted host P A fuel) source = s.eval host fuel source :=
  Classical.not_not.mp fun hne => h ⟨A, hne⟩

end Session

end SmallScript
