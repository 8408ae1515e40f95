import SmallScript.Lexical.Gap

namespace SmallScript.Lexical

/-- What follows the end of a block comment, of which `r` is the text behind the opening. -/
def blockEnd (across : Bool) : List Char → Option (List Char)
  | '*' :: '/' :: r => some r
  | c :: r => if !across && isLineEnd c then none else blockEnd across r
  | [] => none

def isGapBlank (across : Bool) (c : Char) : Bool := isInlineBlank c || across && isLineEnd c

/-- The text behind the gap at its front. -/
abbrev skip (across : Bool) (s : List Char) : List Char := skipFrom across .between s

variable {across : Bool}

theorem skipFrom_block (start r : List Char) :
    skipFrom across (.block start) r = ((blockEnd across r).map (skip across)).getD start := by
  fun_induction blockEnd across r with
  | case1 r => rw [skipFrom, Option.map_some, Option.getD_some]
  | case2 c r hstar hstop => simp only [skipFrom, hstop, ↓reduceIte, Option.map_none, Option.getD_none]
  | case3 c r hstar hstop ih =>
      rw [skipFrom]
      · rw [if_neg hstop, ih]
      · exact hstar
  | case4 => rfl

theorem isInlineBlank_of_isLineEnd {c : Char} (h : isLineEnd c = true) :
    isInlineBlank c = false := by
  simp only [isLineEnd, Bool.or_eq_true, beq_iff_eq] at h
  rcases h with ((rfl | rfl) | rfl) | rfl <;> rfl

theorem skipFrom_line (r : List Char) :
    skipFrom across .line r = skip across (r.dropWhile fun c => !isLineEnd c) := by
  induction r with
  | nil => rfl
  | cons c r ih =>
      rw [skipFrom]
      cases hc : isLineEnd c with
      | false => simpa [hc] using ih
      | true =>
          have hslash : c ≠ '/' := by
            rintro rfl
            cases hc
          have hblank := isInlineBlank_of_isLineEnd hc
          simp only [hc, ↓reduceIte, Bool.not_true, Bool.false_eq_true, not_false_eq_true,
            List.dropWhile_cons_of_neg]
          rw [skip, skipFrom.eq_3 _ _ _ (fun _ h => (hslash h).elim) (fun _ h => (hslash h).elim),
            hblank, hc]
          cases across <;> rfl

theorem skip_line (r : List Char) :
    skip across ('/' :: '/' :: r) = skip across (r.dropWhile fun c => !isLineEnd c) := by
  rw [skip, skipFrom, skipFrom_line]

theorem skip_block (r : List Char) :
    skip across ('/' :: '*' :: r) =
      ((blockEnd across r).map (skip across)).getD ('/' :: '*' :: r) := by
  rw [skip, skipFrom, skipFrom_block]

theorem ne_slash_of_isGapBlank {c : Char} (h : isGapBlank across c = true) : c ≠ '/' := by
  rintro rfl
  cases across <;> cases h

theorem skip_blank {c : Char} (h : isGapBlank across c = true) (r : List Char) :
    skip across (c :: r) = skip across r := by
  have hslash := ne_slash_of_isGapBlank h
  rw [skip, skipFrom.eq_3 _ _ _ (fun _ h => (hslash h).elim) (fun _ h => (hslash h).elim)]
  exact if_pos h

theorem skip_stop {c : Char} {r : List Char} (hblank : isGapBlank across c = false)
    (hline : ∀ r', c = '/' → r ≠ '/' :: r')
    (hblock : ∀ r', c = '/' → r = '*' :: r' → blockEnd across r' = none) :
    skip across (c :: r) = c :: r := by
  by_cases h : ∃ r', c = '/' ∧ r = '*' :: r'
  · obtain ⟨r', rfl, rfl⟩ := h
    rw [skip_block, hblock r' rfl rfl, Option.map_none, Option.getD_none]
  · rw [skip, skipFrom.eq_3 _ _ _ (fun r' hc hr => hline r' hc hr) fun r' hc hr => h ⟨r', hc, hr⟩]
    exact if_neg (by rw [← isGapBlank, hblank]; exact Bool.false_ne_true)

theorem slash_suffix_of_blockEnd {r r' : List Char} (h : blockEnd across r = some r') :
    '/' :: r' <:+ r := by
  fun_induction blockEnd across r with
  | case1 r =>
      cases h
      exact List.suffix_cons '*' _
  | case2 => cases h
  | case3 c r hstar hstop ih => exact (ih h).trans (List.suffix_cons c r)
  | case4 => cases h

theorem blockEnd_suffix {r r' : List Char} (h : blockEnd across r = some r') : r' <:+ r :=
  (List.suffix_cons '/' r').trans (slash_suffix_of_blockEnd h)

theorem blockEnd_across {r r' : List Char} (h : blockEnd across r = some r') :
    blockEnd true r = some r' := by
  fun_induction blockEnd across r with
  | case1 r => exact h
  | case2 => cases h
  | case3 c r hstar hstop ih =>
      rw [blockEnd]
      · exact ih h
      · exact hstar
  | case4 => cases h

theorem afterBlock_eq (r : List Char) : afterBlock r = blockEnd true r := by
  fun_induction afterBlock r with
  | case1 r => rfl
  | case2 c r hstar ih =>
      rw [blockEnd]
      · exact ih
      · exact hstar
  | case3 => rfl

/-- Induction along a gap; the texts at its end are left to `stop`. -/
theorem gap_induction (across : Bool) {motive : List Char → Prop}
    (nil : motive [])
    (blank : ∀ c r, isGapBlank across c = true → motive r → motive (c :: r))
    (line : ∀ r, motive (r.dropWhile fun c => !isLineEnd c) → motive ('/' :: '/' :: r))
    (block : ∀ r r', blockEnd across r = some r' → motive r' → motive ('/' :: '*' :: r))
    (stop : ∀ c r, isGapBlank across c = false → (∀ r', c = '/' → r ≠ '/' :: r') →
      (∀ r', c = '/' → r = '*' :: r' → blockEnd across r' = none) → motive (c :: r))
    (s : List Char) : motive s := by
  induction hn : s.length using Nat.strongRecOn generalizing s with
  | ind n ih =>
    subst hn
    cases s with
    | nil => exact nil
    | cons c r =>
      cases hc : isGapBlank across c with
      | true => exact blank c r hc (ih _ (Nat.lt_succ_self _) r rfl)
      | false =>
          by_cases hline : ∃ r', c = '/' ∧ r = '/' :: r'
          · obtain ⟨r', rfl, rfl⟩ := hline
            have := (List.dropWhile_suffix (l := r') fun c => !isLineEnd c).length_le
            exact line r' (ih _ (by simp only [List.length_cons]; omega) _ rfl)
          · by_cases hblock : ∃ r' r'', c = '/' ∧ r = '*' :: r' ∧ blockEnd across r' = some r''
            · obtain ⟨r', r'', rfl, rfl, hend⟩ := hblock
              have := (blockEnd_suffix hend).length_le
              exact block r' r'' hend (ih _ (by simp only [List.length_cons]; omega) r'' rfl)
            · refine stop c r hc (fun r' h h' => hline ⟨r', h, h'⟩) fun r' h h' => ?_
              rw [Option.eq_none_iff_forall_ne_some]
              exact fun r'' h'' => hblock ⟨r', r'', h, h', h''⟩

theorem skip_suffix (s : List Char) : skip across s <:+ s := by
  induction s using gap_induction across with
  | nil => exact List.suffix_refl _
  | blank c r hc ih =>
      rw [skip_blank hc]
      exact ih.trans (List.suffix_cons c r)
  | line r ih =>
      rw [skip_line]
      exact (ih.trans (List.dropWhile_suffix _)).trans ⟨['/', '/'], rfl⟩
  | block r r' hr ih =>
      rw [skip_block, hr]
      exact (ih.trans (blockEnd_suffix hr)).trans ⟨['/', '*'], rfl⟩
  | stop c r hc hline hblock => exact (skip_stop hc hline hblock).symm ▸ List.suffix_refl (c :: r)

theorem skip_skip (s : List Char) : skip across (skip across s) = skip across s := by
  induction s using gap_induction across with
  | nil => rfl
  | blank c r hc ih => rw [skip_blank hc, ih]
  | line r ih => rw [skip_line, ih]
  | block r r' hr ih =>
      rw [skip_block, hr]
      exact ih
  | stop c r hc hline hblock => rw [skip_stop hc hline hblock, skip_stop hc hline hblock]

theorem isGapBlank_of_inline {c : Char} (h : isGapBlank false c = true) :
    isGapBlank true c = true := by
  rw [isGapBlank, Bool.false_and, Bool.or_false] at h
  rw [isGapBlank, h, Bool.true_or]

/-- A gap may be taken in two steps, the first one within its line. -/
theorem skip_inline_skip (s : List Char) : skip true (skip false s) = skip true s := by
  induction s using gap_induction false with
  | nil => rfl
  | blank c r hc ih => rw [skip_blank hc, skip_blank (isGapBlank_of_inline hc), ih]
  | line r ih => rw [skip_line, skip_line, ih]
  | block r r' hr ih =>
      rw [skip_block, hr, skip_block, blockEnd_across hr]
      exact ih
  | stop c r hc hline hblock => rw [skip_stop hc hline hblock]

theorem skip_ne_of_length_le {c c' : Char} {u r : List Char} (h : u.length ≤ r.length) :
    skip across u ≠ c :: c' :: r := by
  intro heq
  have hlength : (skip across u).length ≤ u.length := (skip_suffix u).length_le
  rw [heq] at hlength
  simp only [List.length_cons] at hlength
  omega

theorem skip_line_ne (r : List Char) : skip across ('/' :: '/' :: r) ≠ '/' :: '/' :: r := by
  rw [skip_line]
  exact skip_ne_of_length_le (List.dropWhile_suffix _).length_le

theorem skip_block_ne {r r' : List Char} (h : blockEnd across r = some r') :
    skip across ('/' :: '*' :: r) ≠ '/' :: '*' :: r := by
  rw [skip_block, h, Option.map_some, Option.getD_some]
  exact skip_ne_of_length_le (blockEnd_suffix h).length_le

/-- A run of blanks and comments. A comment to the end of its line has one. -/
inductive Blanks : List Char → Prop where
  | nil : Blanks []
  | blank (c : Char) (hc : isGapBlank true c = true) {g : List Char} (h : Blanks g) : Blanks (c :: g)
  | line (body : List Char) (hbody : ∀ c ∈ body, isLineEnd c = false) (c : Char)
      (hc : isLineEnd c = true) {g : List Char} (h : Blanks g) :
      Blanks ('/' :: '/' :: (body ++ c :: g))
  | block (body : List Char) (hbody : ¬['*', '/'] <:+: body) {g : List Char} (h : Blanks g) :
      Blanks ('/' :: '*' :: (body ++ '*' :: '/' :: g))

theorem blockEnd_body {body : List Char} (h : ¬['*', '/'] <:+: body) (r : List Char) :
    blockEnd true (body ++ '*' :: '/' :: r) = some r := by
  induction body with
  | nil => rfl
  | cons c body ih =>
      have htail : ¬['*', '/'] <:+: body := fun hin => h (hin.trans (List.suffix_cons c body).isInfix)
      rw [List.cons_append, blockEnd.eq_2 _ _ _ ?_]
      · exact ih htail
      · rintro u rfl hu
        cases body with
        | nil => cases hu
        | cons d body =>
            cases hu
            exact h ⟨[], body, rfl⟩

theorem isGapBlank_of_isLineEnd {c : Char} (h : isLineEnd c = true) : isGapBlank true c = true := by
  rw [isGapBlank, h, Bool.and_true, Bool.or_true]

theorem dropWhile_line {body : List Char} (hbody : ∀ c ∈ body, isLineEnd c = false) {c : Char}
    (hc : isLineEnd c = true) (r : List Char) :
    (body ++ c :: r).dropWhile (fun c => !isLineEnd c) = c :: r := by
  rw [List.dropWhile_append_of_pos fun d hd => by rw [hbody d hd]; rfl,
    List.dropWhile_cons_of_neg (by simp [hc])]

theorem blockEnd_inline_body {body : List Char} (h : ¬['*', '/'] <:+: body) (r : List Char) :
    blockEnd false (body ++ '*' :: '/' :: r) = if body.any isLineEnd then none else some r := by
  induction body with
  | nil => rfl
  | cons c body ih =>
      have htail : ¬['*', '/'] <:+: body := fun hin => h (hin.trans (List.suffix_cons c body).isInfix)
      rw [List.cons_append, blockEnd.eq_2 _ _ _ ?_, ih htail, List.any_cons]
      · cases isLineEnd c <;> rfl
      · rintro u rfl hu
        cases body with
        | nil => cases hu
        | cons d body =>
            cases hu
            exact h ⟨[], body, rfl⟩

/-- Where an inline gap ends in blanks `g`: behind them, or at a line end, or at a comment over
several lines. -/
inductive Cut (g : List Char) : Prop where
  | through (h : ∀ s, skip false (g ++ s) = skip false s)
  | lineEnd (c : Char) (hc : isLineEnd c = true) (g' : List Char) (hg : Blanks g')
      (h : ∀ s, skip false (g ++ s) = c :: (g' ++ s))
  | comment (body : List Char) (hbody : ¬['*', '/'] <:+: body) (g' : List Char) (hg : Blanks g')
      (h : ∀ s, skip false (g ++ s) = '/' :: '*' :: (body ++ '*' :: '/' :: (g' ++ s)))

theorem Cut.of_skip {g g' : List Char} (hg : Cut g)
    (h : ∀ s, skip false (g' ++ s) = skip false (g ++ s)) : Cut g' := by
  cases hg with
  | through hs => exact .through fun s => (h s).trans (hs s)
  | lineEnd c hc u hu hs => exact .lineEnd c hc u hu fun s => (h s).trans (hs s)
  | comment body hbody u hu hs => exact .comment body hbody u hu fun s => (h s).trans (hs s)

namespace Blanks

variable {g : List Char} (s : List Char)

theorem front (h : Blanks g) : g = [] ∨ ∃ c r, g = c :: r ∧ (isGapBlank true c = true ∨ c = '/') := by
  cases h with
  | nil => exact .inl rfl
  | blank c hc h => exact .inr ⟨c, _, rfl, .inl hc⟩
  | line | block => exact .inr ⟨'/', _, rfl, .inr rfl⟩

theorem skip (h : Blanks g) : skip true (g ++ s) = Lexical.skip true s := by
  induction h with
  | nil => rfl
  | blank c hc _ ih => rw [List.cons_append, skip_blank hc, ih]
  | line body hbody c hc _ ih =>
      rw [List.cons_append, List.cons_append, List.append_assoc, List.cons_append, skip_line,
        dropWhile_line hbody hc, skip_blank (isGapBlank_of_isLineEnd hc), ih]
  | block body hbody _ ih =>
      rw [List.cons_append, List.cons_append, List.append_assoc, List.cons_append, List.cons_append,
        skip_block, blockEnd_body hbody]
      exact ih

theorem cut (h : Blanks g) : Cut g := by
  have hline {c : Char} (hc : isLineEnd c = true) (r : List Char) :
      Lexical.skip false (c :: r) = c :: r := by
    refine skip_stop ?_ (fun _ hslash => ?_) fun _ hslash => ?_
    · rw [isGapBlank, isInlineBlank_of_isLineEnd hc]
      rfl
    all_goals
      subst hslash
      cases hc
  induction h with
  | nil => exact .through fun _ => rfl
  | @blank c hc g h ih =>
      cases hend : isLineEnd c with
      | true => exact .lineEnd c hend g h fun s => hline hend _
      | false =>
          rw [isGapBlank, hend, Bool.and_false, Bool.or_false] at hc
          have hskip (s : List Char) : Lexical.skip false (c :: g ++ s) = Lexical.skip false (g ++ s) :=
            skip_blank (by rw [isGapBlank, hc, Bool.true_or]) _
          exact ih.of_skip hskip
  | @line body hbody c hc g h ih =>
      refine .lineEnd c hc g h fun s => ?_
      rw [List.cons_append, List.cons_append, List.append_assoc, List.cons_append, skip_line,
        dropWhile_line hbody hc, hline hc]
  | @block body hbody g h ih =>
      have hskip (s : List Char) : Lexical.skip false ('/' :: '*' :: (body ++ '*' :: '/' :: g) ++ s) =
          if body.any isLineEnd then '/' :: '*' :: (body ++ '*' :: '/' :: (g ++ s))
          else Lexical.skip false (g ++ s) := by
        rw [List.cons_append, List.cons_append, List.append_assoc, List.cons_append, List.cons_append,
          skip_block, blockEnd_inline_body hbody]
        split <;> rfl
      cases hany : body.any isLineEnd with
      | true => exact .comment body hbody g h fun s => by rw [hskip, hany, if_pos rfl]
      | false => exact ih.of_skip fun s => by rw [hskip, hany, if_neg Bool.false_ne_true]

end Blanks

end SmallScript.Lexical
