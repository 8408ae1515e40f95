import SmallScript.Proofs.Grammar.First
import SmallScript.Proofs.Grammar.Knot
import Mathlib

namespace SmallScript.Grammar

open Lexical Scan

/-- In front of `s` a comment over several lines starts on this line, and behind it an operand. -/
def lateOperand (s : List Char) : Bool :=
  match skipInlineGap s with
  | '/' :: '*' :: r => (blockEnd true r).isSome && (expr grammar ('/' :: '*' :: r)).isSome
  | _ => false

/-- No `return` and no `throw` at the front whose operand stands behind such a comment. -/
def Prompt (s : List Char) : Prop :=
  ∀ w ∈ ["return", "throw"], ∀ x ∈ keyword w s, lateOperand x.2 = false

def isJoining (c : Char) : Bool := isNamePart c || c == '.'

/-- The rests of a text directly behind a name character or a point of its code. -/
def joinedTails (s : List Char) : List (List Char) :=
  (codeTails s).filterMap fun
    | c :: r => if isJoining c then some r else none
    | [] => none

instance : DecidablePred Prompt := fun s =>
  inferInstanceAs (Decidable (∀ w ∈ ["return", "throw"], ∀ x ∈ keyword w s, lateOperand x.2 = false))

theorem mem_joinedTails {s u : List Char} :
    u ∈ joinedTails s ↔ ∃ c, isJoining c = true ∧ c :: u ∈ codeTails s := by
  rw [joinedTails, List.mem_filterMap]
  constructor
  · rintro ⟨v, hv, hu⟩
    cases v with
    | nil => cases hu
    | cons c r =>
        obtain ⟨hc, hr⟩ := Option.ite_none_right_eq_some.mp hu
        cases hr
        exact ⟨c, hc, hv⟩
  · rintro ⟨c, hc, hu⟩
    exact ⟨c :: u, hu, if_pos hc⟩

theorem isJoining_eq_false {c : Char} (h : isSymbolic c = false) (hpoint : c ≠ '.') :
    isJoining c = false := by
  rw [isJoining, beq_eq_false_iff_ne.mpr hpoint, Bool.or_false, Bool.eq_false_iff]
  exact fun hc => Bool.false_ne_true (h.symm.trans (isSymbolic_of_isNamePart hc))

theorem isJoining_of_isGapBlank {c : Char} (h : isGapBlank true c = true) : isJoining c = false := by
  refine isJoining_eq_false ?_ ?_
  · rw [isSymbolic, h, Bool.not_true, Bool.and_false]
  · rintro rfl
    cases h

theorem Turns.isJoining_eq_false {d e : Nat} {c : Char} (h : Turns d c e) : isJoining c = false := by
  cases h with
  | opening h =>
      refine Grammar.isJoining_eq_false ?_ (by rintro rfl; cases h)
      rw [isSymbolic, (kinds_of_isOpening h).1, Bool.false_and, Bool.false_and]
  | closing h =>
      refine Grammar.isJoining_eq_false ?_ (by rintro rfl; cases h)
      rw [isSymbolic, (kinds_of_isClosing h).1, Bool.false_and, Bool.false_and]
  | semicolon => decide

theorem eq_or_suffix_of_gap {s r : List Char} {c c' : Char} (hs : c :: r <:+ s)
    (h : c' :: Lexical.skip true r <:+ s) : c' = c ∨ c' :: Lexical.skip true r <:+ r := by
  have hlength : (c' :: Lexical.skip true r).length ≤ (c :: r).length :=
    Nat.succ_le_succ (skip_suffix r).length_le
  exact (List.suffix_cons_iff.mp (List.suffix_of_suffix_length_le h hs hlength)).imp_left
    fun heq => (List.cons.inj heq).1

/-- A gap does not end with such a character, unless it is a comment at the end of the text. -/
theorem isJoining_of_gap {s : List Char} {c : Char} (h : c :: Lexical.skip true s <:+ s)
    (hne : Lexical.skip true s ≠ []) : isJoining c = false := by
  induction s using gap_induction true with
  | nil => exact (hne rfl).elim
  | blank c' r hc ih =>
      rw [skip_blank hc] at h hne
      rcases eq_or_suffix_of_gap List.suffix_rfl h with rfl | h
      · exact isJoining_of_isGapBlank hc
      · exact ih h hne
  | line r ih =>
      rw [skip_line] at h hne
      have hline := List.head?_dropWhile_not (fun c => !isLineEnd c) r
      have hrest : r.dropWhile (fun c => !isLineEnd c) <:+ '/' :: '/' :: r :=
        (List.dropWhile_suffix _).trans ⟨['/', '/'], rfl⟩
      generalize r.dropWhile (fun c => !isLineEnd c) = u at *
      -- The gap takes the line end as well, so what it leaves is shorter than the rest `u`.
      refine ih (List.suffix_of_suffix_length_le h hrest ?_) hne
      cases u with
      | nil => exact (hne rfl).elim
      | cons e u =>
          rw [skip_blank (isGapBlank_of_isLineEnd (by simpa using hline))]
          exact Nat.succ_le_succ (skip_suffix u).length_le
  | block r r' hr ih =>
      rw [skip_block, hr] at h hne
      have hslash : '/' :: r' <:+ '/' :: '*' :: r :=
        (slash_suffix_of_blockEnd hr).trans ⟨['/', '*'], rfl⟩
      rcases eq_or_suffix_of_gap hslash h with rfl | h
      · rfl
      · exact ih h hne
  | stop c' r hc hline hblock =>
      rw [skip_stop hc hline hblock] at h
      exact (Nat.not_succ_le_self _ h.length_le).elim

theorem prompt_of_head {s : List Char} (h : ∀ c ∈ s.head?, isNamePart c = false) : Prompt s := by
  have hfails {w : String} {c : Char} {cs : List Char} (hw : w.toList = c :: cs)
      (hc : isNamePart c = true) : keyword w s = none := by
    refine (keyword_first hw).fails fun c' r hs => ?_
    rw [beq_eq_false_iff_ne]
    rintro rfl
    exact Bool.false_ne_true ((h _ (by rw [hs]; rfl)).symm.trans hc)
  intro w hw x hx
  simp only [List.mem_cons, List.not_mem_nil, or_false] at hw
  rcases hw with rfl | rfl
  · cases (hfails (w := "return") (c := 'r') rfl rfl).symm.trans hx
  · cases (hfails (w := "throw") (c := 't') rfl rfl).symm.trans hx

end SmallScript.Grammar

namespace SmallScript.Lexical.Blanked

open Grammar Scan

variable {source s t r r' : List Char}

theorem fronts {d : Nat} (h : Blanked source s t) : Fronts (fun _ => Blanked source) d s t := by
  cases s using front_cases with
  | nil =>
      rw [h.blank]
      exact .nil
  | line r =>
      rw [h.blank, blankComments_line]
      exact .comment _ (.inl rfl) _ _
  | closed r r' hr =>
      rw [h.blank, blankComments_block, hr, Option.map_some, Option.getD_some]
      refine .comment _ ?_ _ _
      split
      · exact .inr rfl
      · exact .inl rfl
  | unclosed r hr =>
      rw [h.blank, blankComments_block, hr]
      exact .cons '/' ⟨nofun, nofun, fun _ _ => nofun, fun hq => by rcases hq with h | h <;> cases h⟩
  | code c r hc =>
      rw [h.blank, blankComments_cons hc]
      have hbehind (hq : isQuote c = false) : Blanked source r (blankFrom (.behind c) r) := by
        obtain ⟨r', ht, hr⟩ := h.behind hc hq
        rw [h.blank, blankComments_cons hc, List.cons.injEq] at ht
        exact ht.2 ▸ hr
      refine .cons c
        ⟨fun hc => hbehind (isQuote_eq_false ⟨rfl, rfl⟩ hc),
          fun hc => hbehind (isQuote_eq_false ⟨rfl, rfl⟩ hc),
          fun _ _ hc => hbehind (isQuote_eq_false ⟨rfl, rfl⟩ hc), fun hq => ?_⟩
      obtain ⟨r', ht, hr⟩ := h.contentBehind hq
      rw [h.blank, blankComments_cons hc, List.cons.injEq] at ht
      exact ht.2 ▸ hr

theorem slash {d : Nat} (h : Settled (fun _ => Blanked source) d ('/' :: r) ('/' :: r')) :
    Operands (fun _ => Blanked source) d r r' := by
  have hblank := h.tied
  have hleft := h.left
  generalize hs : '/' :: r = s at hblank hleft
  cases s using front_cases with
  | nil => cases hs
  | line r => exact (skip_line_ne r hleft).elim
  | closed r r' hr => exact (skip_block_ne hr hleft).elim
  | unclosed u hu =>
      cases hs
      have ht := hblank.blank
      rw [blankComments_block, hu] at ht
      cases ht
      exact .inr ⟨_, _, rfl, rfl⟩
  | code c r hc =>
      cases hs
      obtain ⟨w, ht, hr⟩ := hblank.behind hc rfl
      cases ht
      exact .inl hr

/-- An operand on the same line, unless it stands behind a comment over several lines. -/
theorem sameLine_expr {n : Nat} {L : Nat → List Char → List Char → Prop}
    (h : grammar.Follow (fun _ => Blanked source) n grammar L) :
    Follows 0 n (fun s t => Blanked source s t ∧ lateOperand s = false) (Blanked source)
      (do sameLine; grammar.expr) (do sameLine; grammar.expr) := by
  have hassoc (s : List Char) : (do sameLine; grammar.expr : Scan Expr) s =
      (do notNext isLineEnd; grammar.expr : Scan Expr) (skipInlineGap s) := rfl
  have hnext (c : Char) (r : List Char) : (do notNext isLineEnd; grammar.expr : Scan Expr) (c :: r) =
      if isLineEnd c then none else grammar.expr (c :: r) := by
    rw [bind_apply, notNext]
    cases isLineEnd c <;> rfl
  rintro s t hs ⟨hT, hlate⟩
  rw [hassoc, hassoc]
  have hu : Blanked source (skipInlineGap s) (skipInlineGap t) := hT.skip false
  have hstop : skipInlineGap (skipInlineGap s) = skipInlineGap s := skip_skip s
  have hleft : (skipInlineGap s).length ≤ s.length := (skip_suffix s).length_le
  have hright : (skipInlineGap t).length ≤ t.length := (skip_suffix t).length_le
  rw [lateOperand] at hlate
  generalize skipInlineGap s = u, skipInlineGap t = u' at *
  have hrest : (grammar.expr u = none ∧ grammar.expr u' = none) ∨ ∃ e r r', grammar.expr u = some (e, r) ∧
      grammar.expr u' = some (e, r') ∧ Kept 0 (Blanked source) s t r r' := by
    rcases (h.expr 0).weaken u u' (by omega) hu with hfail | ⟨e, r, r', hr, hr', hkept⟩
    · exact .inl hfail
    · exact .inr ⟨e, r, r', hr, hr', hkept.rest, Nat.le_trans hkept.left hleft,
        Nat.le_trans hkept.right hright⟩
  cases u using front_cases with
  | nil =>
      have hnil : u' = [] := hu.blank
      subst hnil
      rw [bind_apply, notNext, Option.bind_some]
      exact hrest
  | line r => exact (skip_line_ne r hstop).elim
  | closed r r' hr =>
      have hlines : blockEnd false r = none := by
        rw [Option.eq_none_iff_forall_ne_some]
        exact fun w hw => skip_block_ne hw hstop
      simp only [hr, Option.isSome_some, Bool.true_and, Option.isSome_eq_false_iff,
        Option.isNone_iff_eq_none] at hlate
      refine .inl ⟨?_, ?_⟩
      · rw [hnext, if_neg (by decide), grammar_expr, hlate]
      · rw [hu.blank, blankComments_block, hr, hlines]
        exact hnext _ _
  | unclosed r hr =>
      have hsame : u' = '/' :: '*' :: r := by rw [hu.blank, blankComments_block, hr]; rfl
      subst hsame
      rw [hnext, if_neg (by decide)]
      exact hrest
  | code c r hc =>
      have hcons : u' = c :: blankFrom (.behind c) r := by rw [hu.blank, blankComments_cons hc]
      subst hcons
      rw [hnext, hnext]
      cases isLineEnd c with
      | true => exact .inl ⟨rfl, rfl⟩
      | false => exact hrest

theorem firm : Firm (Blanked source) := fun _ h => h.blank

/-- In front of a statement: no comment at a word that stands by itself cuts an operand off. -/
structure Ready (source s t : List Char) : Prop where
  blanked : Blanked source s t
  prompt : Prompt (skipGap s)

section

variable (hprompt : ∀ u ∈ codeTails source, u ∉ joinedTails source → Prompt u)

include hprompt

theorem ready (h : Blanked source s t)
    (hfront : ∀ c, c :: skipGap s <:+ source → skipGap s ≠ [] → isJoining c = false) :
    Ready source s t := by
  refine ⟨h, ?_⟩
  by_cases hhead : ∀ c ∈ (skipGap s).head?, isNamePart c = false
  · exact prompt_of_head hhead
  · push Not at hhead
    obtain ⟨c, hc, hname⟩ := hhead
    obtain ⟨r, hr⟩ := List.head?_eq_some_iff.mp hc
    have hne : skipGap s ≠ [] := by rw [hr]; exact nofun
    refine hprompt _ ((h.skip true).code ?_) fun hjoined => ?_
    · show skipGap s ∈ codeTails (skipGap s)
      rw [hr, codeTails_cons]
      · exact List.mem_cons_self
      · rintro _ rfl
        exact (hname rfl).elim
    · obtain ⟨c', hjoining, hmem⟩ := mem_joinedTails.mp hjoined
      exact Bool.false_ne_true
        ((hfront c' (suffix_of_mem_codeFrom hmem) hne).symm.trans hjoining)

theorem readyBehind {c : Char} (h : Blanked source s t) (hc : isJoining c = false)
    (hs : c :: s <:+ source) : Ready source s t := by
  refine ready hprompt h fun c' hc' hne => ?_
  rcases eq_or_suffix_of_gap hs hc' with rfl | hc'
  · exact hc
  · exact isJoining_of_gap hc' hne

/-- Behind a word that is over: either it is followed by a gap, or by no jump. -/
theorem readyAt (h : Blanked source s t) (hhead : ∀ c ∈ s.head?, isNamePart c = false) :
    Ready source s t := by
  by_cases hgap : skipGap s = s
  · exact ⟨h, prompt_of_head (hgap.symm ▸ hhead)⟩
  · refine ready hprompt h fun c hc hne => isJoining_of_gap ?_ hne
    have hsuffix : skipGap s <:+ s := skip_suffix s
    have hlength : (skipGap s).length < s.length :=
      lt_of_le_of_ne hsuffix.length_le fun heq => hgap (hsuffix.eq_of_length heq)
    exact List.suffix_of_suffix_length_le hc h.suffix hlength

/-- A comment over several lines on one side is a line feed on the other. -/
theorem lineBreak (n : Nat) : Follows 0 n (Blanked source) (Ready source)
    (do inlineGap; atLineEnd <|> blockComment) (do inlineGap; atLineEnd <|> blockComment) := by
  refine (inlineGap_follows (fun h => h.skip false) n).bind fun _ => ?_
  rintro s t - ⟨h, hstop⟩
  rw [orElse_apply, orElse_apply]
  cases s using front_cases with
  | nil => exact h.blank ▸ .inl ⟨rfl, rfl⟩
  | line r => exact (skip_line_ne r hstop).elim
  | closed r r' hr =>
      have hlines : blockEnd false r = none := by
        rw [Option.eq_none_iff_forall_ne_some]
        exact fun u hu => skip_block_ne hu hstop
      have hslash : '/' :: r' <:+ source :=
        ((slash_suffix_of_blockEnd hr).trans ⟨['/', '*'], rfl⟩).trans h.suffix
      have hrest : Blanked source r' (blankComments r') := by
        refine ⟨rfl, (List.suffix_cons '/' r').trans hslash, fun u hu => h.code ?_⟩
        rw [codeTails, codeFrom, codeFrom_block, hr]
        exact hu
      refine .inr ⟨(), r', blankComments r', ?_, ?_, readyBehind hprompt hrest rfl hslash, ?_, ?_⟩
      · rw [atLineEnd_cons, blockComment_block, hr]
        rfl
      · rw [h.blank, blankComments_block, hr, hlines]
        rfl
      · exact Nat.le_succ_of_le (Nat.le_succ_of_le (blockEnd_suffix hr).length_le)
      · rw [h.blank, blankComments_block, hr]
        exact Nat.le_succ _
  | unclosed r hr =>
      have hfail : (atLineEnd ('/' :: '*' :: r)).or (blockComment ('/' :: '*' :: r)) = none := by
        rw [atLineEnd_cons, blockComment_block, hr]
        rfl
      rw [h.blank, blankComments_block, hr]
      exact .inl ⟨hfail, hfail⟩
  | code c r hc =>
      cases hline : isLineEnd c with
      | true =>
          have hblank := isGapBlank_of_isLineEnd hline
          obtain ⟨w, rfl, hr⟩ := h.behind hc (isQuote_of_isGapBlank hblank)
          have hready := readyBehind hprompt hr
            (isJoining_of_isGapBlank (isGapBlank_of_isLineEnd hline)) h.suffix
          rw [atLineEnd_cons, atLineEnd_cons, if_pos hline, if_pos hline]
          exact .inr ⟨(), r, w, rfl, rfl, hready, Nat.le_succ _, Nat.le_succ _⟩
      | false =>
          have hline : ¬isLineEnd c = true := by rw [hline]; exact Bool.false_ne_true
          rw [h.blank, blankComments_cons hc, atLineEnd_cons, atLineEnd_cons, if_neg hline,
            if_neg hline, Option.none_or, Option.none_or]
          refine .inl ⟨blockComment_cons hc, blockComment_cons fun r' hslash => ?_⟩
          subst hslash
          exact NoComment.blank hc r' rfl

theorem tie : Tie (fun _ => Blanked source) (fun _ => Ready source) where
  fronts := fronts
  firm _ := firm
  gap h := h.skip true
  turn hturn h := readyBehind hprompt (hturn.tail (T := fun _ => Blanked source) (fronts h))
    hturn.isJoining_eq_false h.suffix
  leave h hhead := readyAt hprompt h hhead
  gapLeft {d s t} h := by
    have hskip : skipGap (skipGap s) = skipGap s := skip_skip s
    exact ⟨h.blanked.skip true, h.blanked.skip true, hskip.symm ▸ h.prompt⟩
  inlineGap h := h.skip false
  slash := slash
  lineBreak n _ := lineBreak hprompt n

theorem jumpKeyword {n : Nat} {w : String} (hw : w ∈ ["return", "throw"]) :
    Follows 1 n (fun s t => Blanked source s t ∧ Prompt s)
      (fun r r' => Blanked source r r' ∧ lateOperand r = false) (keyword w) (keyword w) := by
  rintro s t hs ⟨hT, hfront⟩
  have hplain : Grammar.isPlain w = true := by
    revert w
    decide
  rcases (tie hprompt).keyword (d := 0) n hplain s t hs hT with
    hfail | ⟨a, r, r', hr, hr', hrest, hleft, hright⟩
  · exact .inl hfail
  · exact .inr ⟨a, r, r', hr, hr', ⟨hrest, hfront w hw (a, r) hr⟩, hleft, hright⟩

theorem jump {n : Nat} (h : grammar.Follow (fun _ => Blanked source) n grammar fun _ => Ready source) :
    Follows 1 (n + 1) (fun s t => Blanked source s t ∧ Prompt s) (Blanked source) (jump grammar)
      (jump grammar) := by
  have hthrow : (do sameLine; let e ← grammar.expr; return Stmt.throw e : Scan Stmt) =
      (do let e ← (do sameLine; grammar.expr); return Stmt.throw e) := (bind_assoc _ _ _).symm
  have hword {w : String} (hw : Grammar.isPlain w = true) :
      Follows 1 (n + 1) (fun s t => Blanked source s t ∧ Prompt s) (Blanked source) (keyword w)
        (keyword w) :=
    ((tie hprompt).keyword (d := 0) _ hw).on fun _ _ h => h.1
  refine .orElse ((hword rfl).andThen fun _ => .pure _) <|
    .orElse ((hword rfl).andThen fun _ => .pure _) <| .orElse ?_ ?_
  · exact (jumpKeyword hprompt (w := "return") (by decide)).bindBehind fun _ =>
      ((sameLine_expr h).maybeOf fun _ _ h => h.1).bind fun _ => .pure _
  · refine (jumpKeyword hprompt (w := "throw") (by decide)).bindBehind fun _ => ?_
    rw [hthrow]
    exact (sameLine_expr h).bind fun _ => .pure _

theorem follow (n : Nat) :
    grammar.Follow (fun _ => Blanked source) n grammar fun _ => Ready source :=
  (tie hprompt).grammar (fun _ _ h => (jump hprompt h).on fun _ _ hs =>
    ⟨hs.tied.tied, hs.tied.left ▸ hs.left.prompt⟩) n

end

end SmallScript.Lexical.Blanked

namespace SmallScript.Program

open Lexical Grammar

/-- A program reads as before without its comments, as long as no `return` and no `throw` takes its
operand from behind a comment over several lines. -/
theorem parse_blankComments {source : String} {t : Program} (h : parse source = .ok t)
    (hprompt : ∀ u ∈ codeTails source.toList, u ∉ joinedTails source.toList → Prompt u) :
    parse (String.ofList (blankComments source.toList)) = .ok t := by
  rw [parse, String.toList_ofList]
  rw [parse] at h
  generalize source.toList = s at h hprompt
  obtain ⟨r, hr, hend⟩ := ofChars?_eq_ok.mp h
  have hstart := Blanked.ready hprompt ⟨rfl, List.suffix_rfl, List.Subset.refl _⟩
    fun _ hc hne => isJoining_of_gap hc hne
  rcases ((Blanked.follow hprompt (s.length + 1)).stmts 0 Blanked.firm) s _ (Nat.lt_succ_self _)
    hstart with ⟨hnone, -⟩ | ⟨t', r', u', hr', hu', hrest, -, -⟩
  · cases hr.symm.trans hnone
  · cases hr.symm.trans hr'
    have hgap : skipGap u' = blankComments (skipGap r) := by
      rw [skipGap, hrest.blanked.blank]
      exact skip_blankComments true r
    refine ofChars?_eq_ok.mpr ⟨u', hu', ?_⟩
    rw [hgap, hend]
    rfl

/-- A `return` with comments on its line, a mark of a comment in its string, and a field by the name
of a jump in front of a comment over two lines. -/
theorem parse_blankComments_return :
    parse "function f() \x7b return /* a */ '/*' + o.throw /*\n*/ + b // c\n \x7d" =
      .ok [.function (.mk (some "f") [] [.returnValue (some (.binary .add
        (.binary .add (.string "/*") (.field (.ident "o") "throw")) (.ident "b")))])] ∧
    parse (String.ofList (blankComments
      "function f() \x7b return /* a */ '/*' + o.throw /*\n*/ + b // c\n \x7d".toList)) =
      .ok [.function (.mk (some "f") [] [.returnValue (some (.binary .add
        (.binary .add (.string "/*") (.field (.ident "o") "throw")) (.ident "b")))])] := by
  have h : parse "function f() \x7b return /* a */ '/*' + o.throw /*\n*/ + b // c\n \x7d" =
      .ok [.function (.mk (some "f") [] [.returnValue (some (.binary .add
        (.binary .add (.string "/*") (.field (.ident "o") "throw")) (.ident "b")))])] := by cbv
  exact ⟨h, parse_blankComments h (by decide)⟩

end SmallScript.Program
