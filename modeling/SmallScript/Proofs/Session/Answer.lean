import SmallScript.Proofs.Early.WellFormed
import SmallScript.Proofs.Outcome
import SmallScript.Session

namespace SmallScript

theorem Fault.kind_early {e : EarlyError} (he : e ≠ .noScope) :
    (Fault.early e).kind = .syntaxError := by
  cases e with
  | noScope => contradiction
  | _ => rfl

namespace Session

variable {host : Host} {E : Eval.Evaluator} {source : String} {s : Session}

theorem evalWith_unparsed {e : ParseError} (h : Program.parse source = .error e) :
    evalWith host E source s = .fail (.unparsable e) s := by
  simp only [evalWith, h]

theorem evalWith_refused {program : Program} {e : EarlyError} {b : Early.Analyzer}
    (hp : Program.parse source = .ok program)
    (hb : Early.analyze program s.analyzer = .error e b) :
    evalWith host E source s = .fail (.early e) { s with analyzer := b } := by
  simp only [evalWith, hp, hb]

theorem evalWith_accepted {program : Program} {b : Early.Analyzer}
    (hp : Program.parse source = .ok program)
    (hb : Early.analyze program s.analyzer = .ok () b) :
    evalWith host E source s =
      (runAccepted host E s.global s.interactive program s.state).mapState
        fun state => { s with analyzer := b, state } := by
  simp only [evalWith, hp, hb]
  cases runAccepted host E s.global s.interactive program s.state <;> rfl

open Early

/-- What a session is given: a text to run, or whether to echo from now on. -/
inductive Entry where
  | text (source : String)
  | echo (isOn : Bool)

instance : Coe String Entry := ⟨.text⟩

def take (host : Host) (fuel : Nat) : Entry → Session → Outcome Session Value
  | .text source, s => s.eval host fuel source
  | .echo isOn, s => .done .undefined (s.setInteractive isOn)

def evalAll (host : Host) (fuel : Nat) : List Entry → Session → Option Session
  | [], s => some s
  | e :: es, s => (s.take host fuel e).state?.bind (evalAll host fuel es)

/-- The text does not parse, or the analyzer does not accept it. -/
inductive Refuses (s : Session) (source : String) : Prop where
  | unparsable (e : ParseError) (h : Program.parse source = .error e)
  | early (program : Program) (e : EarlyError) (b : Analyzer)
      (hp : Program.parse source = .ok program) (hb : analyze program s.analyzer = .error e b)

/-- Between programs the analyzer is in the outermost scope. -/
def Ready (s : Session) : Prop :=
  ∃ names, s.analyzer.scopes = [names] ∧ names.isBoundary = true

theorem openIn_ready (s : State) (interactive : Bool) : (openIn s interactive).Ready :=
  ⟨Names.fresh true, rfl, rfl⟩

/-- A text that is refused leaves the scopes as they were; any other one runs. -/
theorem Ready.taken (hs : s.Ready) (source : String) :
    (∃ e b, s.Refuses source ∧ e.kind = .syntaxError ∧ b.scopes = s.analyzer.scopes ∧
        ∀ host E, s.evalWith host E source = .fail e { s with analyzer := b }) ∨
      ∃ program b, Program.parse source = .ok program ∧
        analyze program s.analyzer = .ok () b ∧
        { s with analyzer := b }.Ready ∧
        ∀ host E, s.evalWith host E source =
          (runAccepted host E s.global s.interactive program s.state).mapState
            fun state => { s with analyzer := b, state } := by
  obtain ⟨names, hnames, hboundary⟩ := hs
  cases hp : Program.parse source with
  | error e => exact .inl ⟨_, _, .unparsable e hp, rfl, rfl, fun _ _ => evalWith_unparsed hp⟩
  | ok program =>
      cases hb : analyze program s.analyzer with
      | error e b =>
          have hscopes := analyze_refuses program names _ b e hnames hb
          have hne : e ≠ .noScope := by
            rintro rfl
            exact housed_analyze program s.analyzer b (hnames ▸ List.cons_ne_nil _ _) hb
          exact .inl ⟨_, b, .early program e b hp hb, Fault.kind_early hne,
            hscopes.trans hnames.symm, fun _ _ => evalWith_refused hp hb⟩
      | ok u b =>
          obtain ⟨-, rfl⟩ := (analyze_accepts program names hboundary _ b hnames).mp hb
          exact .inr ⟨program, _, rfl, hb, ⟨_, rfl, by rw [Names.addAll_isBoundary, hboundary]⟩,
            fun _ _ => evalWith_accepted hp hb⟩

theorem Ready.allValid (hs : s.Ready) {program : Program} {b : Analyzer}
    (hb : analyze program s.analyzer = .ok () b) : AllValid (stmtsParts .top program) := by
  obtain ⟨names, hnames, hboundary⟩ := hs
  exact ((analyze_accepts program names hboundary _ b hnames).mp hb).1.1

theorem Ready.eval (hs : s.Ready) {fuel : Nat} {t : Session}
    (h : (s.eval host fuel source).state? = some t) : t.Ready := by
  rcases hs.taken source with ⟨e, b, -, -, hscopes, heval⟩ | ⟨program, b, -, -, hready, heval⟩
  · rw [Session.eval, heval] at h
    obtain ⟨names, hnames, hboundary⟩ := hs
    exact Option.some.inj h ▸ ⟨names, hscopes.trans hnames, hboundary⟩
  · rw [Session.eval, heval, Outcome.state?_mapState, Option.map_eq_some_iff] at h
    obtain ⟨state, -, rfl⟩ := h
    exact hready

theorem Ready.take (hs : s.Ready) {fuel : Nat} {e : Entry} {t : Session}
    (h : (s.take host fuel e).state? = some t) : t.Ready := by
  cases e with
  | text source => exact hs.eval h
  | echo isOn =>
      cases h
      exact hs

end Session

end SmallScript
