import SmallScript.Proofs.Grammar.Tidy
import Mathlib

namespace SmallScript.Grammar

open Lexical Scan

theorem isLineEnd_of_bracket {c : Char} (h : isOpening c = true ∨ isClosing c = true) :
    isLineEnd c = false := by
  simp only [isOpening, isClosing, Bool.or_eq_true, beq_iff_eq] at h
  rcases h with ((rfl | rfl) | rfl) | (rfl | rfl) | rfl <;> rfl

/-- A relation between texts in order and what is made of them. -/
structure Rewriting (R : List Char → List Char → Prop) : Prop where
  nil : ∀ {t}, R [] t → t = [] ∨ ∃ r', t = ';' :: r'
  cons : ∀ {d c r t}, Tidy d (c :: r) → NoComment c r → R (c :: r) t →
    ∃ r', t = c :: r' ∧ NoComment c r' ∧ (isQuote c = false → R r r')
  string : ∀ {q w r t}, IsQuote q → Whole q w → R (q :: (w ++ r)) t →
    ∃ r', t = q :: (w ++ r') ∧ R r r'
  line : ∀ {r t}, R ('/' :: '/' :: r) t → ∃ r', t = '/' :: r'
  block : ∀ {r u t}, blockEnd true r = some u → R ('/' :: '*' :: r) t →
    ∃ r' u', t = '/' :: '*' :: r' ∧ blockEnd true r' = some u' ∧ R u u'
  skip : ∀ {d s t} across, Tidy d s → R s t → R (skip across s) (skip across t)

/-- The same where line ends may change, with `L` for what stands behind them. -/
structure LineRewriting (R L : List Char → List Char → Prop) : Prop where
  nil : ∀ {t}, R [] t → t = [] ∨ ∃ r', t = ';' :: r'
  cons : ∀ {d c r t}, Tidy d (c :: r) → NoComment c r → isLineEnd c = false → R (c :: r) t →
    ∃ r', t = c :: r' ∧ NoComment c r' ∧ (isQuote c = false → R r r')
  lineEnd : ∀ {d c r t}, Tidy d (c :: r) → isLineEnd c = true → R (c :: r) t →
    ∃ c' r', t = c' :: r' ∧ (c' = c ∨ c = '\n' ∧ c' = '\r') ∧ L r r'
  string : ∀ {q w r t}, IsQuote q → Whole q w → R (q :: (w ++ r)) t →
    ∃ r', t = q :: (w ++ r') ∧ R r r'
  line : ∀ {r t}, R ('/' :: '/' :: r) t → ∃ r', t = '/' :: r'
  block : ∀ {r u t}, blockEnd true r = some u → R ('/' :: '*' :: r) t →
    ∃ r' u', t = '/' :: '*' :: r' ∧ blockEnd true r' = some u' ∧ R u u'
  skip : ∀ {d s t} across, Tidy d s → R s t → R (skip across s) (skip across t)
  leave : ∀ {s t}, R s t → L s t
  gap : ∀ {d s t}, Tidy d s → L s t → R (skipGap s) (skipGap t)

theorem Rewriting.lines {R : List Char → List Char → Prop} (H : Rewriting R) :
    LineRewriting R R where
  nil := H.nil
  cons h hc _ := H.cons h hc
  lineEnd h hline hR := by
    have hblank := isGapBlank_of_isLineEnd hline
    obtain ⟨r', rfl, -, hrest⟩ := H.cons h (.of_isGapBlank hblank _) hR
    exact ⟨_, r', rfl, .inl rfl, hrest (isQuote_of_isGapBlank hblank)⟩
  string := H.string
  line := H.line
  block := H.block
  skip := H.skip
  leave h := h
  gap := H.skip true

/-- A text in order behind `d` open brackets, and what is made of it. -/
structure Rewriting.Rewritten (R : List Char → List Char → Prop) (d : Nat) (s t : List Char) :
    Prop where
  tidy : Tidy d s
  rewrites : R s t

open Rewriting (Rewritten)

namespace LineRewriting

variable {R L : List Char → List Char → Prop} {d n : Nat} {c : Char} {s t r r' : List Char}

variable (H : LineRewriting R L)

include H

theorem skipped (across : Bool) (h : Rewritten R d s t) :
    Rewritten R d (Lexical.skip across s) (Lexical.skip across t) :=
  ⟨(tidy_skip across s).mpr h.tidy, H.skip across h.tidy h.rewrites⟩

theorem fronts (h : Rewritten R d s t) : Fronts (Rewritten R) d s t := by
  obtain ⟨htidy, hR⟩ := h
  have hcomment (r r' : List Char) : Fronts (Rewritten R) d ('/' :: r) ('/' :: r') :=
    .cons '/' ⟨nofun, nofun, fun _ _ => nofun, fun hq => by rcases hq with h | h <;> cases h⟩
  have ne {b : Bool} (hfalse : b = false) : b ≠ true := by
    rw [hfalse]
    exact Bool.false_ne_true
  induction d, s, htidy using tidy_induction with
  | nil =>
      rcases H.nil hR with rfl | ⟨r', rfl⟩
      · exact .nil
      · exact .past r'
  | line d r =>
      obtain ⟨r', rfl⟩ := H.line hR
      exact hcomment _ _
  | block d r u _ _ hr =>
      obtain ⟨r', u', rfl, -⟩ := H.block hr hR
      exact hcomment _ _
  | quote d q w r hr _ hq hw =>
      obtain ⟨r', rfl, hrest⟩ := H.string hq hw hR
      refine .cons q ⟨?_, ?_, ?_, fun _ => hw.closed.content ⟨hr, hrest⟩⟩ <;>
        rcases hq with rfl | rfl <;> simp [isOrdinary, isOpening, isClosing, isQuote]
  | opening d c r hr h ho =>
      obtain ⟨hord, hclose, hq, hslash⟩ := kinds_of_isOpening ho
      obtain ⟨r', rfl, -, hrest⟩ := H.cons h (.of_ne hslash r) (isLineEnd_of_bracket (.inl ho)) hR
      exact .cons c ⟨fun h => (ne hord h).elim, fun _ => ⟨hr, hrest hq⟩,
        fun _ _ h => (ne hclose h).elim, fun h => (ne hq (isQuote_iff.mpr h)).elim⟩
  | closing d c r hr h hclose =>
      obtain ⟨hord, ho, hq, hslash⟩ := kinds_of_isClosing hclose
      obtain ⟨r', rfl, -, hrest⟩ :=
        H.cons h (.of_ne hslash r) (isLineEnd_of_bracket (.inr hclose)) hR
      refine .cons c ⟨fun h => (ne hord h).elim, fun h => (ne ho h).elim,
        fun e he _ => ?_, fun h => (ne hq (isQuote_iff.mpr h)).elim⟩
      cases he
      exact ⟨hr, hrest hq⟩
  | plain d c r hr h hc _ ho hclose hq =>
      cases hline : isLineEnd c with
      | true =>
          have hord : isOrdinary c = false := by simp [isOrdinary, hline]
          have hbehind (r' : List Char) : Behind (Rewritten R) d c r r' :=
            ⟨fun h => (ne hord h).elim, fun h => (ne ho h).elim, fun _ _ h => (ne hclose h).elim,
              fun h => (ne hq (isQuote_iff.mpr h)).elim⟩
          obtain ⟨c', r', rfl, rfl | ⟨rfl, rfl⟩, -⟩ := H.lineEnd h hline hR
          · exact .cons _ (hbehind r')
          · exact .feed r r'
      | false =>
          obtain ⟨r', rfl, -, hrest⟩ := H.cons h hc hline hR
          exact .cons c ⟨fun _ => ⟨hr, hrest hq⟩, fun h => (ne ho h).elim,
            fun _ _ h => (ne hclose h).elim, fun h => (ne hq (isQuote_iff.mpr h)).elim⟩

theorem slash (h : Settled (Rewritten R) d ('/' :: r) ('/' :: r')) :
    Operands (Rewritten R) d r r' := by
  obtain ⟨⟨htidy, hR⟩, hstop, -⟩ := h
  have hline (u : List Char) : r ≠ '/' :: u := by
    rintro rfl
    exact skip_line_ne u hstop
  have hblock (u : List Char) : r ≠ '*' :: u := by
    rintro rfl
    obtain ⟨r'', hr, -⟩ := tidy_block.mp htidy
    exact skip_block_ne hr hstop
  have hc : NoComment '/' r := fun u _ => ⟨hline u, hblock u⟩
  obtain ⟨u, hu, -, hrest⟩ := H.cons htidy hc rfl hR
  cases hu
  rw [Tidy, tidyFrom_cons hc] at htidy
  exact .inl ⟨htidy, hrest rfl⟩

theorem left (h : Rewritten R d s t) : Rewritten L d s t := ⟨h.tidy, H.leave h.rewrites⟩

theorem lineEndBehind (hline : isLineEnd c = true) (h : Rewritten R d (c :: r) t) :
    ∃ c' r', t = c' :: r' ∧ isLineEnd c' = true ∧ Rewritten L d r r' := by
  have htidy := (tidy_blank (isGapBlank_of_isLineEnd hline)).mp h.tidy
  obtain ⟨c', r', rfl, rfl | ⟨rfl, rfl⟩, hrest⟩ := H.lineEnd h.tidy hline h.rewrites
  · exact ⟨c', r', rfl, hline, htidy, hrest⟩
  · exact ⟨'\r', r', rfl, rfl, htidy, hrest⟩

theorem lineBreak (n d : Nat) : Follows 0 n (Rewritten R d) (Rewritten L d)
    (do inlineGap; atLineEnd <|> blockComment) (do inlineGap; atLineEnd <|> blockComment) := by
  refine lineBreak_leaves n (fun _ _ h => H.skipped false h) ?_ ?_ ?_ ?_ ?_
  · intro t h
    rcases H.nil h.rewrites with rfl | ⟨r', rfl⟩ <;> rfl
  · intro r u t h hr
    obtain ⟨r', u', rfl, hu', hrest⟩ := H.block hr h.rewrites
    obtain ⟨v, hv, htidy⟩ := tidy_block.mp h.tidy
    cases hr.symm.trans hv
    exact ⟨r', u', rfl, hu', htidy, H.leave hrest⟩
  · intro r t h hr
    obtain ⟨u, hu, -⟩ := tidy_block.mp h.tidy
    cases hr.symm.trans hu
  · intro c r t hc hline h
    obtain ⟨r', rfl, hc', -⟩ := H.cons h.tidy hc hline h.rewrites
    exact ⟨r', rfl, hc'⟩
  · exact fun c r t hline h => H.lineEndBehind hline h

theorem tie : Tie (Rewritten R) (Rewritten L) where
  fronts := H.fronts
  firm d t h := by
    cases tidy_nil.mp h.tidy
  gap h := H.skipped true h
  turn hturn h := H.left (hturn.tail (H.fronts h))
  leave h _ := H.left h
  gapLeft h :=
    have hgap := ⟨(tidy_skip true _).mpr h.tidy, H.gap h.tidy h.rewrites⟩
    ⟨hgap, H.left hgap⟩
  inlineGap h := H.skipped false h
  slash := H.slash
  lineBreak := H.lineBreak

theorem head (h : Rewritten R d (c :: r) t) :
    ∃ c' r', t = c' :: r' ∧ (c' = c ∨ c = '\n' ∧ c' = '\r') := by
  obtain ⟨htidy, hR⟩ := h
  generalize hs : c :: r = s at htidy hR
  cases s using front_cases with
  | nil => cases hs
  | line r =>
      cases hs
      obtain ⟨r', rfl⟩ := H.line hR
      exact ⟨'/', r', rfl, .inl rfl⟩
  | closed r u hr =>
      cases hs
      obtain ⟨r', u', rfl, -⟩ := H.block hr hR
      exact ⟨'/', _, rfl, .inl rfl⟩
  | unclosed r hr =>
      obtain ⟨u, hu, -⟩ := tidy_block.mp htidy
      cases hr.symm.trans hu
  | code c r hc =>
      cases hs
      cases hline : isLineEnd c with
      | true =>
          obtain ⟨c', r', rfl, hc', -⟩ := H.lineEnd htidy hline hR
          exact ⟨c', r', rfl, hc'⟩
      | false =>
          obtain ⟨r', rfl, -⟩ := H.cons htidy hc hline hR
          exact ⟨c, r', rfl, .inl rfl⟩

theorem sameLine (n d : Nat) : Follows 0 n (Rewritten R d) (Rewritten R d) sameLine sameLine := by
  refine (H.tie.scanInlineGap n).bind fun _ => ?_
  intro s t _ h
  cases s with
  | nil =>
      refine .inr ⟨(), [], t, rfl, ?_, h, Nat.le_refl _, Nat.le_refl _⟩
      rcases H.nil h.rewrites with rfl | ⟨r', rfl⟩ <;> rfl
  | cons c r =>
      obtain ⟨c', r', rfl, hc'⟩ := H.head h
      have hline : isLineEnd c' = isLineEnd c := by
        rcases hc' with rfl | ⟨rfl, rfl⟩ <;> rfl
      rw [notNext, notNext, hline]
      cases isLineEnd c with
      | true => exact .inl ⟨rfl, rfl⟩
      | false => exact .inr ⟨(), _, _, rfl, rfl, h, Nat.le_refl _, Nat.le_refl _⟩

theorem follow (n : Nat) : grammar.Follow (Rewritten R) n grammar (Rewritten L) :=
  H.tie.grammar (fun n d h => H.tie.jumpAtFront h (H.sameLine n d)) n

end LineRewriting

namespace Rewriting

variable {R : List Char → List Char → Prop} {d n : Nat} {c : Char} {s t r : List Char}

variable (H : Rewriting R)

include H

theorem skipped (across : Bool) (h : Rewritten R d s t) :
    Rewritten R d (Lexical.skip across s) (Lexical.skip across t) :=
  H.lines.skipped across h

theorem lineBreak (n d : Nat) : Follows 0 n (Rewritten R d) (Rewritten R d)
    (do inlineGap; atLineEnd <|> blockComment) (do inlineGap; atLineEnd <|> blockComment) :=
  H.lines.lineBreak n d

theorem tie : Tie (Rewritten R) := H.lines.tie

theorem head (h : Rewritten R d (c :: r) t) : ∃ r', t = c :: r' := by
  cases hline : isLineEnd c with
  | true =>
      obtain ⟨r', rfl, -⟩ :=
        H.cons h.tidy (.of_isGapBlank (isGapBlank_of_isLineEnd hline) r) h.rewrites
      exact ⟨r', rfl⟩
  | false =>
      obtain ⟨c', r', rfl, rfl | ⟨rfl, -⟩⟩ := H.lines.head h
      · exact ⟨r', rfl⟩
      · cases hline

theorem sameLine (n d : Nat) : Follows 0 n (Rewritten R d) (Rewritten R d) sameLine sameLine :=
  H.lines.sameLine n d

theorem follow (n : Nat) : grammar.Follow (Rewritten R) n grammar :=
  H.lines.follow n

end Rewriting

end SmallScript.Grammar
