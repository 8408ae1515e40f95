import SmallScript.Proofs.Grammar.Knot

namespace SmallScript.Grammar

open Lexical Scan

structure Lacks (Q : Nat → List Char → Prop) (d : Nat) (s t : List Char) : Prop where
  same : t = s
  lacks : ¬Q d s

/-- `Q` passes from the rest of a text to the text, over characters of code, strings and gaps. -/
structure Backward (Q : Nat → List Char → Prop) : Prop where
  plain : ∀ {d c r}, NoComment c r → c ≠ '\\' → isOpening c = false → isClosing c = false →
    isQuote c = false → Q d r → Q d (c :: r)
  opening : ∀ {d c r}, isOpening c = true → Q (d + 1) r → Q d (c :: r)
  closing : ∀ {d c r}, isClosing c = true → Q d r → Q (d + 1) (c :: r)
  content : ∀ {d q r}, IsQuote q → ¬Q d (q :: r) → Content q (Lacks Q d) r r
  block : ∀ {d s r}, blockEnd true s = some r → Q d r → Q d ('/' :: '*' :: s)
  skip : ∀ {d s} across, Q d (Lexical.skip across s) → Q d s

namespace Backward

variable {α : Type} {Q : Nat → List Char → Prop} {d e j n : Nat} {c : Char} {s t r : List Char}

/-- What goes in lockstep where `Q` is lacking passes `Q` back. -/
theorem of_follows {p : Scan α} (h : ∀ n, Follows j n (Lacks Q d) (Lacks Q e) p p) {a : α}
    (hp : p s = some (a, r)) (hr : Q e r) : Q d s := by
  by_contra hs
  obtain ⟨r', hr', hkept⟩ := (h (s.length + 1)).succeeds (Nat.lt_succ_self _) ⟨rfl, hs⟩ hp
  exact hkept.rest.lacks hr

theorem firm (d : Nat) : Firm (Lacks Q d) := fun _ h => h.same

variable (H : Backward Q)

include H

theorem skipped (across : Bool) (h : Lacks Q d s t) :
    Lacks Q d (Lexical.skip across s) (Lexical.skip across t) :=
  ⟨by rw [h.same], fun hs => h.lacks (H.skip across hs)⟩

theorem tail (h : Lacks Q d (c :: r) t) (hc : NoComment c r) (hslash : c ≠ '\\')
    (ho : isOpening c = false) (hclose : isClosing c = false) (hq : isQuote c = false) :
    Lacks Q d r r :=
  ⟨rfl, fun hr => h.lacks (H.plain hc hslash ho hclose hq hr)⟩

theorem fronts (h : Lacks Q d s t) : Fronts (Lacks Q) d s t := by
  rw [h.same]
  cases s with
  | nil => exact .nil
  | cons c r =>
      refine .cons c ⟨fun hord => ?_, fun ho => ?_, fun e he hclose => ?_, fun hq => ?_⟩
      · simp only [isOrdinary, Bool.not_eq_true', Bool.or_eq_false_iff, beq_eq_false_iff_ne] at hord
        obtain ⟨⟨⟨⟨⟨⟨ho, hclose⟩, hq⟩, hcomment⟩, -⟩, -⟩, hslash⟩ := hord
        exact H.tail h (fun _ hc => (hcomment hc).elim) hslash ho hclose hq
      · exact ⟨rfl, fun hr => h.lacks (H.opening ho hr)⟩
      · exact ⟨rfl, fun hr => h.lacks (he ▸ H.closing hclose hr)⟩
      · exact H.content hq h.lacks

theorem slash {r' : List Char} (h : Settled (Lacks Q) d ('/' :: r) ('/' :: r')) :
    Operands (Lacks Q) d r r' := by
  obtain rfl : r' = r := (List.cons.inj h.tied.same).2
  by_cases hstar : ∃ u, r' = '*' :: u
  · obtain ⟨u, rfl⟩ := hstar
    exact .inr ⟨u, u, rfl, rfl⟩
  · have hc : NoComment '/' r' := by
      refine fun u _ => ⟨?_, fun hu => hstar ⟨u, hu⟩⟩
      rintro rfl
      exact skip_line_ne u h.left
    exact .inl (H.tail h.tied hc (by decide) rfl rfl rfl)

theorem lineBreak (n d : Nat) : Follows 0 n (Lacks Q d) (Lacks Q d)
    (do inlineGap; atLineEnd <|> blockComment) (do inlineGap; atLineEnd <|> blockComment) := by
  refine lineBreak_follows n (fun _ _ h => H.skipped false h) ?_ ?_ ?_ ?_
  · rintro t ⟨rfl, -⟩
    rfl
  · rintro r r' t ⟨rfl, h⟩ hr
    exact ⟨r, r', rfl, hr, rfl, fun hr' => h (H.block hr hr')⟩
  · rintro r t ⟨rfl, -⟩ hr
    rw [atLineEnd_cons, blockComment_block, hr]
    rfl
  · rintro c r t hc ⟨rfl, h⟩
    refine ⟨r, rfl, hc, fun hline => ⟨rfl, fun hr => h ?_⟩⟩
    have hblank := isGapBlank_of_isLineEnd hline
    obtain ⟨hslash, ho, hclose⟩ := not_bracket_of_isGapBlank hblank
    exact H.plain hc hslash ho hclose (isQuote_of_isGapBlank hblank) hr

theorem tie : Tie (Lacks Q) where
  fronts := H.fronts
  firm d := firm (d + 1)
  gap := H.skipped true
  turn hturn h := hturn.tail (H.fronts h)
  leave h _ := h
  gapLeft h := ⟨H.skipped true h, H.skipped true h⟩
  inlineGap := H.skipped false
  slash := H.slash
  lineBreak := H.lineBreak

theorem sameLine (n d : Nat) : Follows 0 n (Lacks Q d) (Lacks Q d) sameLine sameLine := by
  refine (H.tie.scanInlineGap n).bind fun _ => ?_
  rintro s t - h
  obtain rfl := h.same
  cases t with
  | nil => exact .inr ⟨(), _, _, rfl, rfl, h, Nat.le_refl _, Nat.le_refl _⟩
  | cons c r =>
      rw [notNext]
      cases isLineEnd c with
      | true => exact .inl ⟨rfl, rfl⟩
      | false => exact .inr ⟨(), _, _, rfl, rfl, h, Nat.le_refl _, Nat.le_refl _⟩

theorem jump (n d : Nat) (h : grammar.Follow (Lacks Q) n grammar) :
    Follows 1 (n + 1) (Lacks Q d) (Lacks Q d) (jump grammar) (jump grammar) :=
  H.tie.jump h (H.sameLine n d)

theorem follow (n : Nat) : grammar.Follow (Lacks Q) n grammar :=
  H.tie.grammar (fun n d h => H.tie.jumpAtFront h (H.sameLine n d)) n

end Backward

end SmallScript.Grammar
