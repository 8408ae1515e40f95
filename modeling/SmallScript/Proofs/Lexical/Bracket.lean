import SmallScript.Proofs.Lexical.Comment

namespace SmallScript.Lexical

def isOpening (c : Char) : Bool := c == '(' || c == '[' || c == '\x7b'

def isClosing (c : Char) : Bool := c == ')' || c == ']' || c == '\x7d'

def closingOf : Nat → List (List Char) → Option (List Char)
  | d, (c :: r) :: tails =>
    if isOpening c then closingOf (d + 1) tails
    else if !isClosing c then closingOf d tails
    else if d = 0 then some r
    else closingOf (d - 1) tails
  | _, _ => none

/-- What follows the bracket that closes the one in front of `s`, once `d` more are closed.
Comments and strings do not count. -/
def closing (d : Nat) (s : List Char) : Option (List Char) := closingOf d (codeTails s)

variable {c : Char} {d : Nat} {r : List Char}

section

variable (hc : NoComment c r)

include hc

theorem closing_opening (h : isOpening c = true) : closing d (c :: r) = closing (d + 1) r := by
  have hbehind := behind_of_not_isQuote (isQuote_eq_false ⟨rfl, rfl⟩ h)
  rw [closing, codeTails_cons hc, hbehind, closingOf, if_pos h]
  rfl

theorem closing_closing (h : isClosing c = true) :
    closing d (c :: r) = if d = 0 then some r else closing (d - 1) r := by
  have hbehind := behind_of_not_isQuote (isQuote_eq_false ⟨rfl, rfl⟩ h)
  have hopening : ¬isOpening c = true := by
    intro ho
    simp only [isClosing, Bool.or_eq_true, beq_iff_eq] at h
    rcases h with (rfl | rfl) | rfl <;> cases ho
  rw [closing, codeTails_cons hc, hbehind, closingOf, if_neg hopening, h]
  rfl

theorem closing_behind (ho : isOpening c = false) (h : isClosing c = false) :
    closing d (c :: r) = closingOf d (codeFrom (.behind c) r) := by
  rw [closing, codeTails_cons hc, closingOf, if_neg (by rw [ho]; exact Bool.false_ne_true), h]
  rfl

theorem closing_plain (ho : isOpening c = false) (h : isClosing c = false)
    (hq : isQuote c = false) : closing d (c :: r) = closing d r := by
  rw [closing_behind hc ho h, Zone.behind, hq, if_neg Bool.false_ne_true]
  rfl

end

theorem closing_line (r : List Char) :
    closing d ('/' :: '/' :: r) = closing d (r.dropWhile fun c => !isLineEnd c) := by
  rw [closing, closing, ← codeFrom_line]
  rfl

theorem closing_block (r : List Char) :
    closing d ('/' :: '*' :: r) = (blockEnd true r).bind (closing d) := by
  rw [closing, codeTails, codeFrom, codeFrom_block]
  cases blockEnd true r <;> rfl

theorem not_bracket_of_isGapBlank {across : Bool} (h : isGapBlank across c = true) :
    c ≠ '\\' ∧ isOpening c = false ∧ isClosing c = false := by
  refine ⟨?_, ?_, ?_⟩
  · rintro rfl
    cases across <;> cases h
  all_goals
    rw [← Bool.not_eq_true]
    intro h'
    simp only [isOpening, isClosing, Bool.or_eq_true, beq_iff_eq] at h'
    rcases h' with (rfl | rfl) | rfl <;> cases across <;> cases h

theorem closing_blank {across : Bool} (h : isGapBlank across c = true) (r : List Char) :
    closing d (c :: r) = closing d r := by
  obtain ⟨-, hopen, hclose⟩ := not_bracket_of_isGapBlank h
  exact closing_plain (.of_isGapBlank h r) hopen hclose (isQuote_of_isGapBlank h)

theorem closing_skip (across : Bool) (s : List Char) : closing d (skip across s) = closing d s := by
  induction s using gap_induction across with
  | nil => rfl
  | blank c r hc ih => rw [skip_blank hc, closing_blank hc, ih]
  | line r ih => rw [skip_line, closing_line, ih]
  | block r r' hr ih =>
      rw [skip_block, hr, closing_block, blockEnd_across hr]
      exact ih
  | stop c r hc hline hblock => rw [skip_stop hc hline hblock]

theorem blockEnd_append {across : Bool} {r' : List Char} (h : blockEnd across r = some r')
    (k : List Char) : blockEnd across (r ++ k) = some (r' ++ k) := by
  fun_induction blockEnd across r with
  | case1 r => cases h; rfl
  | case2 => cases h
  | case3 c r hstar hstop ih =>
      rw [List.cons_append, blockEnd]
      · rw [if_neg hstop, ih h]
      · rintro u rfl hu
        cases r with
        | nil => cases h
        | cons c r =>
            cases hu
            exact hstar _ rfl rfl
  | case4 => cases h

theorem blockEnd_of_append {across : Bool} {s k : List Char}
    (h : blockEnd across r = some (s ++ k)) : ∃ u, r = u ++ k ∧ blockEnd across u = some s := by
  fun_induction blockEnd across r with
  | case1 r =>
      cases h
      exact ⟨'*' :: '/' :: s, rfl, rfl⟩
  | case2 => cases h
  | case3 c r hstar hstop ih =>
      obtain ⟨u, rfl, hu⟩ := ih h
      refine ⟨c :: u, rfl, ?_⟩
      rw [blockEnd, if_neg hstop, hu]
      rintro v rfl rfl
      exact hstar (v ++ k) rfl rfl
  | case4 => cases h

theorem blockEnd_inline_append {r' : List Char} (h : blockEnd true r = some r')
    (hlines : blockEnd false r = none) (k : List Char) : blockEnd false (r ++ k) = none := by
  fun_induction blockEnd true r with
  | case1 r => cases hlines
  | case2 => contradiction
  | case3 c r hstar hstop ih =>
      rw [blockEnd.eq_2 _ _ _ hstar] at hlines
      rw [List.cons_append, blockEnd]
      · split
        · rfl
        · exact ih h ((if_neg ‹_›).symm.trans hlines)
      · rintro u rfl hu
        cases r with
        | nil => cases h
        | cons c r =>
            cases hu
            exact hstar _ rfl rfl
  | case4 => cases h

end SmallScript.Lexical
