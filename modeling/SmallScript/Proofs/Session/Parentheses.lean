import SmallScript.Proofs.Strip.Through
import SmallScript.Proofs.Session.Meets
import Mathlib

namespace SmallScript

open Effect Eval

namespace Eval.Mirrored

theorem runAccepted {host : Host} {E D : Evaluator} (h : Mirrored E D) (global : FrameRef)
    (interactive : Bool) (program : Program) :
    Mirrors (Session.runAccepted host E global interactive (stripStmts program))
      (Session.runAccepted host D global interactive program) := by
  refine (h.run global program).bind fun v => ?_
  have hecho : Mirrors (Session.echo host interactive v) (Session.echo host interactive v) := by
    cases v with
    | none => exact mirrors_pure ()
    | some v =>
        cases interactive with
        | false => exact mirrors_pure ()
        | true => exact (mirrors_look fun m => m.inspect_strip v).bind (mirrors_writeLine host)
  exact hecho.bind fun _ => mirrors_pure _

end Eval.Mirrored

namespace Session

variable {host : Host} {global : FrameRef} {interactive : Bool} {t t' : Program} {s s' : State}

/-- What is seen of a run that has come to an end: its value, or its fault with the message, and the
state with the parentheses left out of the functions in memory. -/
def seen : Outcome State Value → Option (Except (Fault × String) Value × State)
  | .done v s => some (.ok v, s.strip)
  | .fail e s => some (.error (e, e.message s.memory), s.strip)
  | .exhausted => none

theorem seen_congr {o o' : Outcome State Value}
    (h : o.mapState State.strip = o'.mapState State.strip) : seen o = seen o' := by
  have hseen (o : Outcome State Value) :
      seen o = match o.mapState State.strip with
        | .done v s => some (.ok v, s)
        | .fail e s => some (.error (e, e.message s.memory), s)
        | .exhausted => none := by
    cases o with
    | done v s => rfl
    | fail e s =>
        simp only [seen, Outcome.mapState, State.strip, e.message_strip]
    | exhausted => rfl
  rw [hseen, hseen, h]

theorem exists_shallow (host : Host) (t : Program) (s : State) :
    ∃ k, (Contract.shallow host k).Good (stmtsParts .top t) ∧ (Contract.shallow host k).Holds s := by
  obtain ⟨k, hk⟩ : ∃ k, (Contract.shallow host k).Good
      (stmtsParts .top t ++ s.memory.closures.toList.flatMap fun c => functionParts c.definition) :=
    ⟨_, fun x hx =>
      List.single_le_sum (fun _ _ => Nat.zero_le _) x.layers (List.mem_map_of_mem hx)⟩
  rw [Contract.good_append] at hk
  exact ⟨k, hk.1, fun c hc x hx => hk.2 x (List.mem_flatMap.mpr ⟨c, Array.mem_toList_iff.mpr hc, hx⟩)⟩

theorem runAccepted_through {n : Nat}
    (hends : runAccepted host (evaluator host n) global interactive t s ≠ .exhausted) :
    runAccepted host (through host n) global interactive t s =
      runAccepted host (evaluator host n) global interactive t s := by
  have hrelated : (Comparison.below host).Related (evaluator host n) (through host n) :=
    evaluator_below_through (Nat.le_refl n)
  have hbelow := (hrelated.runAccepted global interactive t (Contract.lax_good _) s
    (Contract.lax_holds s)).1
  exact (hbelow.resolve_left hends).symm

theorem exists_runAccepted_evaluator {n : Nat}
    (hends : runAccepted host (through host n) global interactive t s ≠ .exhausted) :
    ∃ m, runAccepted host (evaluator host m) global interactive t s =
      runAccepted host (through host n) global interactive t s := by
  obtain ⟨k, hgood, hholds⟩ := exists_shallow host t s
  have hrelated : (Comparison.belowShallow host k).Related (through host n)
      (evaluator host (n * (k + 1))) := through_below_evaluator (Nat.le_refl _)
  have hbelow := (hrelated.runAccepted global interactive t hgood s hholds).1
  exact ⟨_, (hbelow.resolve_left hends).symm⟩

/-- Parentheses make no difference to the evaluator that takes no fuel for them. -/
theorem seen_through (n : Nat) (ht : stripStmts t = stripStmts t') (hs : s.strip = s'.strip) :
    seen (runAccepted host (through host n) global interactive t s) =
      seen (runAccepted host (through host n) global interactive t' s') := by
  have hmirrors (t : Program) :
      Mirrors (runAccepted host (through host n) global interactive (stripStmts t))
        (runAccepted host (through host n) global interactive t) :=
    (through_mirrored host n).runAccepted global interactive t
  exact seen_congr (by rw [← hmirrors t s, ← hmirrors t' s', ht, hs])

theorem ne_exhausted_of_seen {o : Outcome State Value} {a : Except (Fault × String) Value × State}
    (h : seen o = some a) : o ≠ .exhausted := by
  rintro rfl
  cases h

theorem seen_of_strip (ht : stripStmts t = stripStmts t') (hs : s.strip = s'.strip)
    {a : Except (Fault × String) Value × State}
    (h : ∃ n, seen (runAccepted host (evaluator host n) global interactive t s) = some a) :
    ∃ n, seen (runAccepted host (evaluator host n) global interactive t' s') = some a := by
  obtain ⟨n, hn⟩ := h
  have hthrough : seen (runAccepted host (through host n) global interactive t' s') = some a := by
    rw [← seen_through n ht hs, runAccepted_through (ne_exhausted_of_seen hn), hn]
  obtain ⟨m, hm⟩ := exists_runAccepted_evaluator (ne_exhausted_of_seen hthrough)
  exact ⟨m, hm ▸ hthrough⟩

theorem typeOf_paren (host : Host) (n : Nat) (f : FrameRef) (x : String) (s : State) :
    (evaluator host (n + 3)).expr f (.unary .typeOf (.paren (.ident x))) s =
      if (s.memory.lookup? f x).isSome then
        (evaluator host (n + 3)).expr f (.unary .typeOf (.ident x)) s
      else .fail (.notDefined x) s := by
  have hparen : (evaluator host (n + 3)).expr f (.unary .typeOf (.paren (.ident x))) s =
      (readName f x >>= fun v => look fun m => m.unary .typeOf v) s := rfl
  have hname : (evaluator host (n + 3)).expr f (.unary .typeOf (.ident x)) s =
      if (s.memory.lookup? f x).isNone then .done (.string "undefined") s
      else (readName f x >>= fun v => look fun m => m.unary .typeOf v) s := by
    simp only [evaluator, evalExpr, evalUnary]
    rw [bind_apply]
    simp only [look, Outcome.bind]
    split <;> rfl
  rw [hparen, hname, bind_apply]
  cases hlookup : s.memory.lookup? f x with
  | none =>
      simp only [readName, query, Memory.readName, hlookup]
      rfl
  | some v => simp

/-- Programs that are the same without their parentheses get the same verdict from every analyzer,
and from states that are the same but for the parentheses in their functions one of them comes to an
end exactly if the other one does, with the same value or fault and in such a state again. The
parentheses that are kept are around a name behind `typeof`, and count if it has no binding. -/
theorem parentheses_irrelevant (ht : stripStmts t = stripStmts t') :
    Early.analyze t = Early.analyze t' ∧
      (∀ (host : Host) (global : FrameRef) (interactive : Bool) (s s' : State),
        s.strip = s'.strip → ∀ a,
          ((∃ n, seen (runAccepted host (evaluator host n) global interactive t s) = some a) ↔
            ∃ n, seen (runAccepted host (evaluator host n) global interactive t' s') = some a)) ∧
      ∀ host n f x s, (evaluator host (n + 3)).expr f (.unary .typeOf (.paren (.ident x))) s =
        if (s.memory.lookup? f x).isSome then
          (evaluator host (n + 3)).expr f (.unary .typeOf (.ident x)) s
        else .fail (.notDefined x) s := by
  refine ⟨?_, fun host global interactive s s' hs a => ?_, typeOf_paren⟩
  · rw [← Early.analyze_strip t, ht, Early.analyze_strip]
  · exact ⟨seen_of_strip ht hs, seen_of_strip ht.symm hs.symm⟩

/-- `(a) = ('b')` comes to what `a = 'b'` comes to. -/
theorem parentheses_irrelevant_assign :
    stripStmts [.expr (.assign .set (.ident "a") (.string "b"))] =
        stripStmts [.expr (.assign .set (.paren (.ident "a")) (.paren (.string "b")))] ∧
      Early.analyze [.expr (.assign .set (.ident "a") (.string "b"))] =
        Early.analyze [.expr (.assign .set (.paren (.ident "a")) (.paren (.string "b")))] ∧
      ∃ n s, seen (runAccepted ⟨8, fun _ => none⟩ (evaluator ⟨8, fun _ => none⟩ n)
        (start true).global true [.expr (.assign .set (.paren (.ident "a")) (.paren (.string "b")))]
        (start true).state) = some (.ok (.string "b"), s) := by
  have hstrip : stripStmts [.expr (.assign .set (.ident "a") (.string "b"))] =
    stripStmts [.expr (.assign .set (.paren (.ident "a")) (.paren (.string "b")))] := rfl
  have hrun : (runAccepted ⟨8, fun _ => none⟩ (evaluator ⟨8, fun _ => none⟩ 4) (start true).global
      true [.expr (.assign .set (.ident "a") (.string "b"))] (start true).state).mapState
        (fun _ => ()) = .done (.string "b") () := by cbv
  obtain ⟨hcheck, hsame, -⟩ := parentheses_irrelevant hstrip
  generalize (start true).state = s at hrun ⊢
  cases hr : runAccepted ⟨8, fun _ => none⟩ (evaluator ⟨8, fun _ => none⟩ 4) (start true).global
      true [.expr (.assign .set (.ident "a") (.string "b"))] s with
  | done v r =>
      rw [hr] at hrun
      cases hrun
      obtain ⟨n, hn⟩ := (hsame _ _ _ s s rfl _).mp ⟨4, congrArg seen hr⟩
      exact ⟨hstrip, hcheck, n, _, hn⟩
  | fail e r =>
      rw [hr] at hrun
      cases hrun
  | exhausted =>
      rw [hr] at hrun
      cases hrun

/-- `typeof` takes a name in parentheses for an expression. -/
example : ((start false).eval ⟨8, fun _ => none⟩ 8 "typeof a" matches .done _ _) ∧
    ((start false).eval ⟨8, fun _ => none⟩ 8 "typeof (a)" matches .fail _ _) := by
  constructor <;> cbv

end Session

end SmallScript
