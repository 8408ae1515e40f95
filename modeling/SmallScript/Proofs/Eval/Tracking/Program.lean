import SmallScript.Proofs.Eval.Tracking.Statement
import SmallScript.Session
import Mathlib

namespace SmallScript.Eval

open Effect Declares

/-- The state in which the statements of a program start, but for the functions. -/
def entered (global : FrameRef) (program : Program) (s : State) : State :=
  ⟨s.memory.declareVars global (varNames.varNamesOf program), s.output, s.writes, 0⟩

theorem runAccepted_apply (host : Host) (E : Evaluator) (global : FrameRef) (interactive : Bool)
    (program : Program) (s : State) :
    Session.runAccepted host E global interactive program s =
      (runBody E global program >>= fun c => programResult c >>= fun v =>
        Session.echo host interactive v >>= fun _ => pure (v.getD .undefined))
        (entered global program s) := by
  simp only [Session.runAccepted, run, runStatements, bind_assoc]
  rfl

namespace Discipline

variable {K : Discipline} {host : Host} {s : State} {ctx : Context}

structure Excludes (K : Discipline) (host : Host) (P : Moments) : Prop where
  gains : ∀ x, K.gains x
  expr : ∀ n {ctx f e s}, K.Good (exprParts e) → K.Holds s → K.here ctx f s →
    ¬P.expr ctx (evaluator host n) f e s
  stmt : ∀ n {ctx p f t s}, K.Good (stmtParts p t) → K.Holds s → K.ready ctx f [t] s →
    ¬P.stmt ctx (evaluator host n) f t s

theorem Excludes.related {P : Moments} (hP : K.Excludes host P) (A : Evaluator) (Q : Spots)
    (n : Nat) : K.Related (watched host P A Q n) (diverted host Q halting n) := by
  induction n with
  | zero => exact ⟨fun _ => rfl, fun _ _ _ => tracks_exhausted, fun _ _ _ => tracks_exhausted⟩
  | succ n ih =>
      refine ⟨fun _ => rfl, fun {ctx f e s} he hs hhere => ?_,
        fun {ctx p f t s} ht hs hready => ?_⟩
      · rw [Tracks, watched_expr (hP.expr n he hs hhere)]
        cases hQ : Q.expr (evaluator host n) f e s with
        | true =>
            rw [diverted_expr_spot hQ]
            exact tracks_fail hs _
        | false =>
            rw [diverted_expr hQ]
            exact ih.exprIn he hs hhere fun x _ => hP.gains x
      · rw [Tracks, watched_stmt (hP.stmt n ht hs hready)]
        cases hQ : Q.stmt (evaluator host n) f t s with
        | true =>
            rw [diverted_stmt_spot hQ]
            exact tracks_fail hs _
        | false =>
            rw [diverted_stmt hQ]
            exact ih.stmtIn ht hs hready fun x _ => hP.gains x

theorem related_self (hgains : ∀ x, K.gains x) (host : Host) (n : Nat) :
    K.Related (fun _ => evaluator host n) (evaluator host n) := by
  induction n with
  | zero => exact ⟨fun _ => rfl, fun _ _ _ => tracks_exhausted, fun _ _ _ => tracks_exhausted⟩
  | succ n ih =>
      refine ⟨fun _ => rfl, fun he hs hhere => ⟨rfl, ?_⟩, fun ht hs hready => ⟨rfl, ?_⟩⟩
      · exact (ih.exprIn he hs hhere fun x _ => hgains x).2
      · exact (ih.stmtIn ht hs hready fun x _ => hgains x).2

theorem tracks_programResult (hs : K.Holds s) {d : Declares} (c : Completion) :
    K.Tracks d (programResult c) (programResult c) s := by
  cases c with
  | normal v => exact tracks_pure hs v
  | _ => exact (tracks_look hs _).bind fun _ _ _ hs' _ => tracks_fail hs' _

theorem tracks_echo (hs : K.Holds s) {d : Declares} (interactive : Bool) (v : Option Value) :
    K.Tracks d (Session.echo host interactive v) (Session.echo host interactive v) s := by
  cases v with
  | none => exact tracks_pure hs ()
  | some v =>
      cases interactive with
      | false => exact tracks_pure hs ()
      | true => exact (tracks_look hs _).bind fun line _ _ hs' _ => tracks_writeLine hs' host line

/-- A program is tracked from the state that it enters on. -/
theorem Related.runAccepted {D : Context → Evaluator} {E : Evaluator} (h : K.Related D E)
    (host : Host) (ctx : Context) (interactive : Bool) {program : Program}
    (hp : K.Good (stmtsParts .top program))
    (hs : K.Holds (entered K.global program s))
    (hready : ∀ s', K.Holds s' →
      (entered K.global program s).Grows (inFrame K.global (mutables (hoisted program))) s' →
      s'.memory.BindsFunctions K.global program → K.ready ctx K.global program s') :
    Session.runAccepted host (D ctx) K.global interactive program s =
        Session.runAccepted host E K.global interactive program s ∧
      ∀ s', (Session.runAccepted host E K.global interactive program s).state? = some s' →
        K.Holds s' ∧ K.Leads
          (inFrame K.global (mutables (hoisted program) ++ declaredBy program))
          (entered K.global program s) s' := by
  rw [runAccepted_apply, runAccepted_apply]
  refine (h.runBody hp hs hs.rooted.global_lt hready).bind fun c _ _ hs₁ _ => ?_
  refine (tracks_programResult hs₁ c).bind fun v _ _ hs₂ _ => ?_
  exact (tracks_echo hs₂ interactive v).bind fun _ _ _ hs₃ _ => tracks_pure hs₃ _

end Discipline

end SmallScript.Eval
