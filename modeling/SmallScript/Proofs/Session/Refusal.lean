import SmallScript.Proofs.Session.Answer
import Mathlib

namespace SmallScript.Session

open Early

def answer (s : Session) (host : Host) (fuel : Nat) (e : Entry) : Outcome State Value :=
  (s.take host fuel e).mapState Session.state

/-- What the entries of a session answer, up to one that does not come to an end. -/
def answers (host : Host) (fuel : Nat) : List Entry → Session → List (Outcome State Value)
  | [], _ => []
  | e :: es, s =>
    s.answer host fuel e ::
      match (s.take host fuel e).state? with
      | some s => answers host fuel es s
      | none => []

structure Alike (s t : Session) : Prop where
  global : s.global = t.global
  scopes : s.analyzer.scopes = t.analyzer.scopes
  interactive : s.interactive = t.interactive
  state : s.state = t.state

theorem analyze_congr {a b : Analyzer} (h : a.scopes = b.scopes) (program : List Stmt) :
    analyze program a = analyze program b := by
  simp only [analyze, h]

/-- A refused text changes nothing but counts of the analyzer. -/
theorem eval_refused (host : Host) (fuel : Nat) {s : Session} (hs : s.Ready) {source : String}
    (h : s.Refuses source) : ∃ e t, s.eval host fuel source = .fail e t ∧ Alike t s := by
  rcases hs.taken source with ⟨e, b, -, -, hscopes, heval⟩ | ⟨program, b, hp, hb, -⟩
  · exact ⟨e, _, heval host _, rfl, hscopes, rfl, rfl⟩
  · cases h with
    | unparsable e h =>
        rw [hp] at h
        cases h
    | early program' e b' hp' hb' =>
        rw [hp] at hp'
        cases hp'
        rw [hb] at hb'
        cases hb'

theorem Alike.eval {s t : Session} (h : Alike s t) (host : Host) (fuel : Nat) (source : String) :
    (s.eval host fuel source).mapState Session.state =
        (t.eval host fuel source).mapState Session.state ∧
      Option.Rel Alike (s.eval host fuel source).state? (t.eval host fuel source).state? := by
  unfold Session.eval
  cases hp : Program.parse source with
  | error e =>
      rw [evalWith_unparsed hp, evalWith_unparsed hp]
      exact ⟨by simp only [Outcome.mapState, h.state], .some h⟩
  | ok program =>
      have hst := analyze_congr h.scopes program
      cases hb : analyze program s.analyzer with
      | error e b =>
          rw [evalWith_refused hp hb, evalWith_refused hp (hst ▸ hb)]
          exact ⟨by simp only [Outcome.mapState, h.state],
            .some ⟨h.global, rfl, h.interactive, h.state⟩⟩
      | ok u b =>
          rw [evalWith_accepted hp hb, evalWith_accepted hp (hst ▸ hb), h.global, h.interactive,
            h.state]
          simp only [Outcome.mapState_mapState, Outcome.state?_mapState, Function.comp_def,
            true_and]
          cases (runAccepted host (Eval.evaluator host fuel) t.global t.interactive program
              t.state).state? with
          | none => exact .none
          | some state => exact .some ⟨rfl, rfl, rfl, rfl⟩

theorem Alike.take {s t : Session} (h : Alike s t) (host : Host) (fuel : Nat) (e : Entry) :
    s.answer host fuel e = t.answer host fuel e ∧
      Option.Rel Alike (s.take host fuel e).state? (t.take host fuel e).state? := by
  cases e with
  | text source => exact h.eval host fuel source
  | echo isOn =>
      exact ⟨congrArg (Outcome.done Value.undefined) h.state, .some ⟨h.global, h.scopes, rfl, h.state⟩⟩

theorem Alike.answers {s t : Session} (h : Alike s t) (host : Host) (fuel : Nat)
    (es : List Entry) : answers host fuel es s = answers host fuel es t := by
  induction es generalizing s t with
  | nil => rfl
  | cons e es ih =>
      obtain ⟨he, hnext⟩ := h.take host fuel e
      rw [Session.answers, Session.answers, he]
      revert hnext
      cases (s.take host fuel e).state? <;> cases (t.take host fuel e).state? <;> rintro (_ | h)
      · rfl
      · exact congrArg _ (ih ‹_›)

/-- The answers of the other texts do not depend on a text that is refused. -/
theorem answers_eraseIdx_refused (host : Host) (fuel : Nat) (state : State) (interactive : Bool)
    (before after : List Entry) (source : String)
    (h : ∀ s, evalAll host fuel before (openIn state interactive) = some s → s.Refuses source) :
    (answers host fuel (before ++ .text source :: after) (openIn state interactive)).eraseIdx
        before.length =
      answers host fuel (before ++ after) (openIn state interactive) := by
  -- The induction is over the entries before; the sessions on the way are ready, whatever they hold.
  have hready := openIn_ready state interactive
  generalize openIn state interactive = s at *
  induction before generalizing s with
  | nil =>
      obtain ⟨e, t, ht, halike⟩ := eval_refused host fuel hready (h s rfl)
      simp only [List.nil_append, answers, take, ht, Outcome.state?, List.length_nil,
        List.eraseIdx_cons_zero]
      exact halike.answers host fuel after
  | cons e before ih =>
      simp only [List.cons_append, answers, List.length_cons, List.eraseIdx_cons_succ]
      cases he : (s.take host fuel e).state? with
      | none => rfl
      | some t =>
          have ht := ih t (fun u hu => h u (by rw [evalAll, he]; exact hu))
            (hready.take he)
          simpa using ht

set_option maxRecDepth 2000 in
/-- A text that is refused in a function in two loops, after declarations around it. -/
theorem answers_eraseIdx_stray_break :
    (∀ s, evalAll ⟨8, fun _ => none⟩ 20 ["let a"] (openIn initialState true) = some s →
        s.Refuses "while (b) do { var b; { let a; (function () { break })() } } while (b)") ∧
      (answers ⟨8, fun _ => none⟩ 20
          ["let a", "while (b) do { var b; { let a; (function () { break })() } } while (b)",
            "a = 'b'"] (openIn initialState true)).eraseIdx 1 =
        answers ⟨8, fun _ => none⟩ 20 ["let a", "a = 'b'"] (openIn initialState true) := by
  have hrefuses (s : Session)
      (hs : evalAll ⟨8, fun _ => none⟩ 20 ["let a"] (openIn initialState true) = some s) :
      s.Refuses "while (b) do { var b; { let a; (function () { break })() } } while (b)" := by
    have ha : (evalAll ⟨8, fun _ => none⟩ 20 ["let a"] (openIn initialState true)).map
        Session.analyzer = some ⟨0, 0, [⟨["a"], [], [], true⟩]⟩ := by cbv
    have hp : Program.parse
        "while (b) do { var b; { let a; (function () { break })() } } while (b)" =
          .ok [.whileLoop (.ident "b") (.doWhile (.block [.decl .var [("b", none)],
            .block [.decl .letDecl [("a", none)], .expr (.call (.paren (.function
              (.mk none [] [.breakLoop]))) [])]]) (.ident "b"))] := by cbv
    rw [hs, Option.map_some, Option.some.injEq] at ha
    exact .early _ .strayBreak _ hp (by rw [ha]; rfl)
  exact ⟨hrefuses, answers_eraseIdx_refused _ _ _ _ ["let a"] ["a = 'b'"] _ hrefuses⟩

end SmallScript.Session
