import SmallScript.Proofs.Printed.Operand

namespace SmallScript

open Grammar Lexical Scan Token

variable {s : Stmt} {t term : Token} {next : Option Token} {ts us : List Token}
  {K : List Char → Prop} {w : String} {k u r : List Char}

def Apart (k : List Char) : Prop := ∀ c u, k = c :: u → c = ' '

theorem Apart.ends (h : Apart k) : Ends k := by
  intro c u hc
  rw [h c u hc]
  rfl

theorem apart_space (u : List Char) : Apart (' ' :: u) := by
  rintro _ _ ⟨⟩
  rfl

theorem apart_spaced (hK : Follower Apart K) : Follower Apart (Spaced ts K) := by
  cases ts with
  | nil => exact hK
  | cons t ts =>
      rintro _ ⟨l, r, rfl, -⟩
      exact apart_space _

structure Fresh (u : List Char) : Prop extends Inert u where
  comma : char ',' u = none

theorem fresh_front (h : ∀ c v, u = c :: v → c ∉ ',' :: continuations) : Fresh u := by
  refine ⟨inert_front fun c v hu => fun hc => h c v hu (List.mem_cons_of_mem _ hc), ?_⟩
  refine (First.char ',').fails fun c v hu => beq_eq_false_iff_ne.mpr ?_
  rintro rfl
  exact h ',' v hu List.mem_cons_self

/-- A step or a negation in front of an operand is no operator between two. -/
theorem fresh_prefix (hw : w ∈ ["++", "--", "!"]) (hr : Apart r) : Fresh (w.toList ++ r) := by
  have hops : ∀ w ∈ ["++", "--", "!"], ∀ level ∈ levels, level.find? (·.matches w.toList) = none ∧
      (operatorOf level w.toList).isNone = true := by decide
  have hoperator : ∀ level ∈ levels, operatorOf level (w.toList ++ r) = none := by
    intro level hlevel
    obtain ⟨hfind, hnone⟩ := hops w hw level hlevel
    cases r with
    | nil =>
        rw [List.append_nil]
        exact Option.isNone_iff_eq_none.mp hnone
    | cons c r =>
        cases hr c r rfl
        have hstop : ∀ i ∈ level, ' ' ∉ i.characters := fun i hi hmem =>
          Bool.false_ne_true ((characters_levels level hlevel i hi ' ' hmem).symm.trans rfl)
        rw [operatorOf_stop hstop, hfind, Option.map_none]
  simp only [List.mem_cons, List.not_mem_nil, or_false] at hw
  rcases hw with rfl | rfl | rfl <;>
    exact ⟨⟨(callSuffix_first grammar).cons rfl, hoperator, rfl, rfl, rfl⟩, rfl⟩

theorem digit_of_point {x : Float} (h : Number.Numeral.numeral ('.' :: u) = some (x, r)) :
    ∃ d v, u = d :: v ∧ isDigit d = true := by
  -- a point starts no hexadecimal numeral and no mantissa with a whole part
  obtain ⟨y, v, hy, -⟩ := bind_eq_some h
  have hdecimal : Number.Numeral.decimal ('.' :: u) = some (y, v) := hy
  obtain ⟨⟨whole, fraction⟩, v', hm, -⟩ := bind_eq_some hdecimal
  have hpoint : Number.Numeral.pointMantissa ('.' :: u) = some ((whole, fraction), v') := hm
  obtain ⟨ds, v'', hds, -⟩ := bind_eq_some (show (run1 isDigit >>= fun fraction =>
    pure ([], fraction)) u = some ((whole, fraction), v') from hpoint)
  cases u with
  | nil => cases hds
  | cons d v =>
      rw [run1, Option.ite_none_right_eq_some] at hds
      exact ⟨d, v, rfl, hds.1⟩

theorem fresh_point {d : Char} (hd : isDigit d = true) (v : List Char) : Fresh ('.' :: d :: v) := by
  have hlexical : isLexical d = true := isLexical_of_isNamePart (isNamePart_of_isDigit hd)
  have hgap : skipGap (d :: v) = d :: v := by
    refine skip_stop (isGapBlank_of_isLexical hlexical) ?_ ?_ <;> rintro _ rfl <;> cases hd
  have hfield : fieldSuffix ('.' :: d :: v) = none := by
    show (Suffix.field <$> name) (skipGap (d :: v)) = none
    rw [hgap]
    exact map_of_none (name_first.cons (isNameStart_of_isDigit hd))
  refine ⟨⟨?_, fun level hlevel => ?_, rfl, rfl, rfl⟩, rfl⟩
  · refine (orElse_of_none rfl).trans ((orElse_of_none hfield).trans ?_)
    exact (First.bind (First.char '[')).cons rfl
  · have hfirst : ∀ level ∈ levels,
        (level.any fun i => i.op.symbol.toList.head? == some '.') = false := by decide
    exact (operatorOf_first level).cons (hfirst level hlevel)

def compoundWords : List String := ["if", "while", "do", "for", "try"]

def declWords : List String := ["var", "let", "const"]

def jumpWords : List String := ["break", "continue", "return", "throw"]

def headWords : List String :=
  primaryWords ++ prefixWords ++ compoundWords ++ declWords ++ jumpWords ++ [";", "else"]

namespace Token

def IsHead : Token → Prop
  | word w => IsIdentifier w ∨ w ∈ headWords
  | number _ | string _ => True

namespace IsHead

theorem proper (h : t.IsHead) : t.Proper := by
  cases t with
  | number | string => exact trivial
  | word w =>
      rcases h with h | h
      · exact proper_of_isWord (isWord_of_isIdentifier h)
      · have hall : ∀ w ∈ headWords, isProper w = true := by decide
        exact hall w h

theorem ne (h : t.IsHead) (hw : w ∈ reservedWords) (hne : w ∉ headWords) : t ≠ word w := by
  rintro rfl
  rcases h with h | h
  · exact ne_of_isIdentifier h hw rfl
  · exact hne h

end IsHead

theorem IsPrimary.head (h : t.IsPrimary) : t.IsHead := by
  cases t with
  | number | string => exact trivial
  | word w => exact h.imp_right fun h => by simp [headWords, h]

theorem IsPrefix.head (h : t.IsPrefix) : t.IsHead := by
  cases t with
  | number | string => exact trivial
  | word w => exact .inr (by simp [headWords, show w ∈ prefixWords from h])

end Token

theorem fresh_name (hw : isWord w = true) (r : List Char) : Fresh (w.toList ++ r) := by
  have hname : ∀ c ∈ ',' :: continuations, isNameStart c = false :=
    List.all_iff_forall_prop.mp (by decide)
  obtain ⟨c, v, hlist, hc⟩ := avoids_name (F := fun c => !isNameStart c) hw
    (fun c hc => by rw [hc]; rfl) _ rfl
  rw [hlist]
  refine fresh_front ?_
  rintro _ _ ⟨⟩ hmem
  rw [Bool.not_eq_false', hname c hmem] at hc
  cases hc

theorem fresh_number {x : Float} {l : List Char} (h : Number.Numeral.numeral l = some (x, []))
    (r : List Char) : Fresh (l ++ r) := by
  have hdigit : ∀ c ∈ ',' :: continuations, isDigit c = false :=
    List.all_iff_forall_prop.mp (by decide)
  obtain ⟨c, v, rfl, hc⟩ := Number.Numeral.numeral_first.front h
  rw [Bool.or_eq_true, beq_iff_eq] at hc
  rcases hc with hc | rfl
  · refine fresh_front ?_
    rintro _ _ ⟨⟩ hmem
    exact Bool.false_ne_true ((hdigit c hmem).symm.trans hc)
  · obtain ⟨d, v, rfl, hd⟩ := digit_of_point h
    exact fresh_point hd _

/-- A token at the head of a statement does not go on with the line before. -/
theorem fresh_head (ht : t.IsHead) (hne : ∀ w ∈ continuing, t ≠ .word w) (hK : Follower Apart K) :
    Follower Fresh (Flush (t :: ts) K) := by
  intro s hs
  obtain ⟨l, r, rfl, hl, hr⟩ := flush_cons.mp hs
  cases t with
  | number x => exact fresh_number hl r
  | string v =>
      cases hl
      refine fresh_front ?_
      rintro _ _ ⟨⟩
      decide
  | word w =>
      subst hl
      rcases ht with ht | ht
      · exact fresh_name (isWord_of_isIdentifier ht) r
      · have hkinds : ∀ w ∈ headWords, isWord w = true ∨ w ∈ continuing ∨ w ∈ ["++", "--", "!"] ∨
            w ∈ ["\x7b", "~", ";"] := by decide
        rcases hkinds w ht with h | h | h | h
        · exact fresh_name h r
        · exact (hne w h rfl).elim
        · exact fresh_prefix h (apart_spaced hK r hr)
        · simp only [List.mem_cons, List.not_mem_nil, or_false] at h
          rcases h with rfl | rfl | rfl <;>
            exact fresh_front (by rintro _ _ ⟨⟩; decide)

/-- What stands behind a statement in front of the token `next`. Nothing goes on with the statement,
and the token goes on with its last expression only if it is one of those that may. -/
structure Behind (s : Stmt) (next : Option Token) (k : List Char) : Prop where
  apart : Apart k
  clause : ∀ w ∈ ["catch", "finally"], (do gap; keyword w : Scan Unit) k = none
  branch : s.isOpen = true → (do gap; keyword "else" : Scan Unit) k = none
  fresh : (∀ t ∈ next, ∀ w ∈ continuing, t ≠ .word w) → Fresh (skipGap k)
  stop : (∀ t ∈ next, t = .word "\x7d") → Stop k

theorem ends_of_behind (hK : Follower (Behind s next) K) : Follower Ends K :=
  fun k hk => (hK k hk).apart.ends

theorem refuses_gapKeyword (ht : t.Proper) (hK : Follower Ends (Spaced ts K)) (hw : isWord w = true)
    (hne : t ≠ .word w) : Refuses (Spaced (t :: ts) K) (do gap; keyword w) := by
  refine (gives_gap ht).refuses fun s hs => ?_
  obtain ⟨l, r, rfl, hl, hr⟩ := flush_cons.mp hs
  have hflush : Flush [t] (Spaced ts K) (l ++ r) := flush_cons.mpr ⟨l, r, rfl, hl, hr⟩
  exact refuses_keyword hK ht hw hne _ hflush

theorem behind_head (ht : t.IsHead) (hK : Follower Apart K)
    (helse : s.isOpen = true → t ≠ .word "else") :
    Follower (Behind s (some t)) (Spaced (t :: ts) K) := by
  intro k hk
  have hends : Follower Ends (Spaced ts K) := fun k hk => (apart_spaced hK k hk).ends
  refine ⟨apart_spaced hK k hk, fun w hw => ?_, fun hopen => ?_, fun h => ?_, fun h => ?_⟩
  · have hclause : ∀ w ∈ ["catch", "finally"], w ∈ reservedWords ∧ w ∉ headWords := by decide
    obtain ⟨hreserved, hhead⟩ := hclause w hw
    exact refuses_gapKeyword ht.proper hends (isWord_of_reserved w hreserved)
      (ht.ne hreserved hhead) k hk
  · exact refuses_gapKeyword ht.proper hends rfl (helse hopen) k hk
  · exact fresh_head ht (h t rfl) hK _ (spaced_skip ht.proper hk)
  · cases h t rfl
    obtain ⟨_, r, rfl, rfl, -⟩ := hk
    exact .inr ⟨r, rfl⟩

theorem stop_front {across : Bool} (h : Stop k) {c : Char} (hc : skip across k = c :: u) :
    c = '\x7d' := by
  rcases h with rfl | ⟨v, rfl⟩
  · cases hc
  · rw [skip_space_closer (by decide)] at hc
    cases hc
    rfl

theorem unreserved_stop (h : Stop k) : Unreserved (skipGap k) := by
  refine unreserved_of_front fun c r hc => ?_
  rw [stop_front h hc]
  rfl

theorem apart_stop (h : Stop k) : Apart k := by
  rcases h with rfl | ⟨u, rfl⟩
  · exact nofun
  · exact apart_space _

theorem behind_stop (h : Stop k) : Behind s next k := by
  have hreserved : ∀ w ∈ ["catch", "finally"], w ∈ reservedWords := by decide
  refine ⟨apart_stop h, fun w hw => unreserved_stop h w (hreserved w hw),
    fun _ => unreserved_stop h _ (by decide), fun _ => fresh_front fun c v hc => ?_, fun _ => h⟩
  rw [stop_front h hc]
  decide

/-- A text that ends a statement: an expression in front of it is over, and so is a list of
declarators, and nothing of it is an operand. -/
structure Ending (k : List Char) : Prop where
  done : Done k
  comma : comma k = none
  operand : (do sameLine; grammar.expr) k = none

theorem refuses_operand (h : ∀ {across : Bool} {c : Char} {u : List Char},
    skip across k = c :: u → c ∈ [';', '\x7d']) : (do sameLine; grammar.expr) k = none := by
  have hclass : ∀ c ∈ [';', '\x7d'], isLineEnd c = false ∧ isExprFront c = false :=
    List.all_iff_forall_prop.mp (by decide)
  have hline : sameLine k = some ((), skipInlineGap k) :=
    notNext_eq_some_iff.mpr ⟨rfl, fun c u hc => (hclass c (h hc)).1⟩
  rw [bind_of_some hline, grammar_expr]
  show assignment grammar (skip true (skip false k)) = none
  rw [skip_inline_skip]
  exact (assignment_first grammar).fails fun c u hc => (hclass c (h hc)).2

theorem ending_semicolon : Ending (' ' :: ';' :: r) where
  done := .closer (by decide)
  comma := by
    show char ',' (skip true (' ' :: ';' :: r)) = none
    rw [skip_space_closer (by decide)]
    rfl
  operand := refuses_operand fun hc => by
    rw [skip_space_closer (by decide)] at hc
    cases hc
    decide

theorem ending_lineFeed (h : Fresh (skipGap r)) : Ending (' ' :: '\n' :: r) where
  done := ⟨ends_space _, rfl, h.toInert⟩
  comma := h.comma
  operand := rfl

theorem ending_nothing (h : Stop r) : Ending (' ' :: r) := by
  have hfront {across : Bool} {c : Char} {v : List Char} (hc : skip across (' ' :: r) = c :: v) :
      c = '\x7d' := by
    rw [skip_blank (by cases across <;> rfl)] at hc
    exact stop_front h hc
  have hfresh : Fresh (skipGap (' ' :: r)) := fresh_front fun c v hc => by
    rw [hfront hc]
    decide
  refine ⟨⟨ends_space _, stepAfter_front fun c v hc => ?_, hfresh.toInert⟩, hfresh.comma,
    refuses_operand fun hc => ?_⟩
  · rw [hfront hc]
    decide
  · rw [hfront hc]
    decide

section

variable (h : Terminates next term) (hK : Follower (Behind s next) K)

include h hK

theorem ending_term : Follower Ending (Spaced [term] K) := by
  rintro _ ⟨_, r, rfl, hl, hr⟩
  cases h with
  | semicolon =>
      cases hl
      exact ending_semicolon
  | lineFeed hne =>
      cases hl
      exact ending_lineFeed ((hK r hr).fresh hne)
  | nothing hne =>
      cases hl
      exact ending_nothing ((hK r hr).stop hne)

theorem gives_stmtEnd : Gives (Spaced [term] K) stmtEnd () (UpToGap K) := by
  rintro _ ⟨_, r, rfl, hl, hr⟩
  cases h with
  | semicolon =>
      cases hl
      exact ⟨r, rfl, upToGap hr⟩
  | lineFeed hne =>
      cases hl
      exact ⟨r, rfl, upToGap hr⟩
  | nothing hne =>
      cases hl
      rcases (hK r hr).stop hne with rfl | ⟨u, rfl⟩
      · exact ⟨[], rfl, upToGap hr⟩
      · -- the brace is left, but not the space in front of it
        exact ⟨'\x7d' :: u, rfl, _, hr, rfl⟩

/-- Behind a loop with its test at the end only a semicolon is taken. A line feed is left as a part
of the gap. -/
theorem gives_optionalEnd :
    ∃ o, Gives (Spaced [term] K) (maybe (do inlineGap; char ';')) o (UpToGap K) := by
  cases h with
  | semicolon =>
      refine ⟨some (), Gives.maybe ?_⟩
      rintro _ ⟨_, r, rfl, rfl, hr⟩
      exact ⟨r, rfl, upToGap hr⟩
  | lineFeed hne =>
      refine ⟨none, (Gives.nothing ?_).imp ?_⟩ <;> rintro _ ⟨_, r, rfl, rfl, hr⟩
      · rfl
      · exact ⟨r, hr, rfl⟩
  | nothing hne =>
      refine ⟨none, (Gives.nothing ?_).imp ?_⟩ <;> rintro _ ⟨_, r, rfl, rfl, hr⟩
      · rcases (hK r hr).stop hne with rfl | ⟨u, rfl⟩ <;> rfl
      · exact ⟨r, hr, rfl⟩

end

end SmallScript
