import SmallScript.Proofs.Grammar.Phrase
import SmallScript.Proofs.Peg.WellFormed
import Mathlib

namespace SmallScript.Grammar

open Scan Relation

def taking : Rule → Bool
  | .program | .stmts => false
  | _ => true

/-- A rule calls only rules of a lower rank before it has taken a character. -/
def rank : Rule → Nat
  | .block | .declaration | .functionDef | .newExpr => 0
  | .primary => 1
  | .callExpr => 2
  | .postfixExpr => 3
  | .unaryExpr => 4
  | .binary i => 5 + i
  | .conditional => 15
  | .assignment => 16
  | .expr => 17
  | .stmt => 18
  | .stmts => 19
  | .program => 20

theorem wellFormed : Peg.WellFormed body taking rank where
  takes r := by
    cases r with
    | program | stmts => nofun
    | binary i =>
        obtain ⟨_ | i, h⟩ := i <;> exact fun _ => rfl
    | _ => exact fun _ => rfl
  guarded r := by
    cases r with
    | binary i =>
        obtain ⟨i, h⟩ := i
        have hi : i < 10 := h
        interval_cases i <;> rfl
    | _ => rfl
  descends r := by
    cases r with
    | binary i =>
        obtain ⟨i, h⟩ := i
        have hi : i < 10 := h
        interval_cases i <;> rfl
    | _ => rfl
  bounded := by
    refine ⟨21, fun r => ?_⟩
    cases r with
    | binary i =>
        have hi : (i : Nat) < 10 := i.isLt
        simp only [rank]
        omega
    | _ => decide

/-- Rules that go together on short texts make all rules go together. -/
theorem reader_follow {g g' : Rules} {n : Nat} (h : g.Follow Same n g' Same) (r : Rule) :
    Follows (if taking r then 1 else 0) n (Same 0) (Same 0) (g.reader r) (g'.reader r) := by
  have hdeep {α : Type} {p q : Scan α} (h : Follows 1 (n + 1) (Same 0) (Same 0) p q) :
      Follows 1 n (Same 0) (Same 0) p q := h.mono (Nat.le_succ n)
  have hunary := (Same.tie.unaryExpr h (d := 0))
  cases r with
  | program =>
      have hgap : Follows 0 n (Same 0) (Same 0) Lexical.gap Lexical.gap := Same.follows fun s a r h => by
        cases h
        exact (Lexical.skip_suffix s).length_le
      have hend : Follows 0 n (Same 0) (Same 0) endOfText endOfText := Same.follows fun s a r h => by
        cases s <;> cases h
        exact Nat.le_refl _
      exact (h.stmts 0 (Same.firm 0)).bind fun _ => hgap.bind fun _ => hend.bind fun _ => .pure _
  | stmts => exact h.stmts 0 (Same.firm 0)
  | stmt => exact h.stmt 0 (Same.firm 0)
  | block => exact hdeep (Same.tie.block h).tied
  | declaration => exact hdeep (Same.tie.declaration h)
  | functionDef => exact hdeep (Same.tie.functionDef h).tied
  | expr => exact h.expr 0
  | assignment => exact hdeep (Same.tie.assignment h)
  | conditional => exact hdeep (Same.tie.conditional h)
  | binary i =>
      exact hdeep <| (Same.tie.foldl_binaryLevel (fun _ hl => List.mem_of_mem_take hl) hunary).on
        fun _ _ hT => .inl hT
  | unaryExpr => exact hdeep (hunary.on fun _ _ hT => .inl hT)
  | postfixExpr => exact hdeep (Same.tie.postfixExpr h)
  | callExpr => exact hdeep (Same.tie.callExpr h)
  | newExpr => exact h.newExpr 0
  | primary => exact hdeep (Same.tie.primary h)

theorem takes_reader {r : Rule} (h : taking r = true) : Takes (grammar.reader r) :=
  takes_of_follows fun n => by simpa [h] using reader_follow (grammar_follow n) r

theorem shrinks_reader (r : Rule) : Shrinks (grammar.reader r) := by
  intro s a t hs
  have hfollow := reader_follow (grammar_follow (s.length + 1)) r
  obtain ⟨u, -, hkept⟩ := hfollow.succeeds (Nat.lt_succ_self _) rfl hs
  exact Nat.le_of_add_right_le hkept.left

theorem runs_iff (r : Rule) (s : List Char) (x : Option (r.Result × List Char)) :
    Peg.Runs body (body r) s x ↔ x = grammar.reader r s :=
  wellFormed.runs_iff shrinks_reader (fun _ => takes_reader) read_body r s x

theorem reader_rules {s : List Char} {n : Nat} (hs : s.length < n) (r : Rule) :
    (rules n).reader r s = grammar.reader r s :=
  (reader_follow (rules_follow_grammar n) r).eq hs

theorem ofChars?_eq_ok_iff {s : List Char} {t : Program} :
    Program.ofChars? s = .ok t ↔ Peg.Runs body (body .program) s (some (t, [])) := by
  have hend (p : List Stmt) (r : List Char) :
      (do Lexical.gap; endOfText; return p : Scan (List Stmt)) r = some (t, []) ↔
        p = t ∧ Lexical.skipGap r = [] := by
    show ((endOfText (Lexical.skipGap r)).bind fun x => some (p, x.2)) = some (t, []) ↔ _
    cases Lexical.skipGap r <;> simp [endOfText]
  rw [runs_iff, ofChars?_eq_ok, eq_comm, Rules.reader, bind_apply, Option.bind_eq_some_iff]
  constructor
  · rintro ⟨r, hr, hgap⟩
    exact ⟨(t, r), hr, (hend t r).mpr ⟨rfl, hgap⟩⟩
  · rintro ⟨⟨p, r⟩, hr, hrest⟩
    obtain ⟨rfl, hgap⟩ := (hend p r).mp hrest
    exact ⟨r, hr, hgap⟩

/-- Whatever the text: what is repeated takes a character each time, a rule that comes back to
itself has taken one, and so every rule has one answer, which unfolding the rules as often as the
text has characters gives as well. -/
theorem parsing_ends :
    (∀ r, (body r).EachRepeated (Peg.Consumes body)) ∧
      (∀ r s t, TransGen (Peg.Calls body) (r, s) (r, t) → t.length < s.length) ∧
      (∀ r s, ∃! x, Peg.Runs body (body r) s x) ∧
      (∀ r s x n, s.length < n → (Peg.Runs body (body r) s x ↔ x = (rules n).reader r s)) ∧
      ∀ s t, Program.ofChars? s = .ok t ↔ Peg.Runs body (body .program) s (some (t, [])) :=
  ⟨fun r => wellFormed.eachRepeated (body r) (wellFormed.guarded r),
    fun _ _ _ h => wellFormed.length_lt_of_path h,
    fun r s => ⟨grammar.reader r s, (runs_iff r s _).mpr rfl, fun x h => (runs_iff r s x).mp h⟩,
    fun r s x _ hs => reader_rules hs r ▸ runs_iff r s x, fun _ _ => ofChars?_eq_ok_iff⟩

/-- The rule of `new` comes back to itself behind the word. -/
theorem parsing_ends_new :
    TransGen (Peg.Calls body) (.newExpr, "new new x".toList) (.newExpr, "new x".toList) ∧
      "new x".toList.length < "new new x".toList.length ∧ "new new x".toList.length < 10 ∧
      Peg.Runs body (body .program) "new new x".toList
        (some ([.expr (.new (.new (.ident "x") []) [])], [])) ∧
      (rules 10).reader .program "new new x".toList =
        some ([.expr (.new (.new (.ident "x") []) [])], []) := by
  obtain ⟨-, hpath, -, hrules, hprogram⟩ := parsing_ends
  have hword : Peg.Runs body (Peg.keyword "new" *> Peg.gap) "new new x".toList
      (some ((), "new x".toList)) := by
    have hread : (Peg.keyword "new" *> Peg.gap : Phrase Unit).read grammar.reader "new new x".toList =
        some ((), "new x".toList) := by
      rw [Peg.read_seqRight, Peg.read_keyword, Peg.read_gap]
      rfl
    rw [← hread]
    exact wellFormed.runs_read shrinks_reader (fun _ => takes_reader) read_body _ rfl _
  have hcycle : TransGen (Peg.Calls body) (.newExpr, "new new x".toList) (.newExpr, "new x".toList) :=
    .single (.seq_left (.convert (.seq_right hword (.alt_left (.rule ..)))))
  have hparse : Program.ofChars? "new new x".toList =
      .ok [.expr (.new (.new (.ident "x") []) [])] := by cbv
  have hrun := (hprogram _ _).mp hparse
  exact ⟨hcycle, hpath _ _ _ hcycle, by decide, hrun, ((hrules _ _ _ 10 (by decide)).mp hrun).symm⟩

end SmallScript.Grammar
