import SmallScript.Grammar.Statement
import SmallScript.Proofs.Lockstep
import SmallScript.Proofs.Lexical.Bracket
import SmallScript.Proofs.Lexical.Lexeme
import Mathlib.Tactic.ByContra

namespace SmallScript.Grammar

open Lexical Scan

/-- Not the beginning of a string or of a comment, no bracket, no blank for a comment, no line end
and no backslash. -/
def isOrdinary (c : Char) : Bool :=
  !(isOpening c || isClosing c || isQuote c || c == '/' || c == ' ' || isLineEnd c || c == '\\')

/-- The characters of tokens that are read wherever they stand. -/
def isSymbolic (c : Char) : Bool := isOrdinary c && c != ';' && !isGapBlank true c

def isPlain (w : String) : Bool := w.toList.all isSymbolic && !w.toList.isEmpty

theorem isOrdinary_of_isSymbolic {c : Char} (h : isSymbolic c = true) : isOrdinary c = true :=
  (Bool.and_eq_true_iff.mp (Bool.and_eq_true_iff.mp h).1).1

theorem isSymbolic_of_isNamePart {c : Char} (h : isNamePart c = true) : isSymbolic c = true := by
  by_contra hc
  simp only [isSymbolic, isOrdinary, isOpening, isClosing, isQuote, isGapBlank, isInlineBlank,
    isLineEnd, Bool.and_eq_true, not_and_or, Bool.not_eq_true', Bool.not_eq_false, Bool.or_eq_true,
    Bool.true_and, beq_iff_eq, bne_iff_ne, not_not] at hc
  rcases hc with ((((((((((rfl | rfl) | rfl) | (rfl | rfl) | rfl) | rfl | rfl) | rfl) | rfl) |
    ((rfl | rfl) | rfl) | rfl) | rfl) | rfl) | (((((rfl | rfl) | rfl) | rfl) | rfl) | rfl) |
    ((rfl | rfl) | rfl) | rfl) <;> cases h

theorem isSymbolic_of_isLexical {c : Char} (h : isLexical c = true) : isSymbolic c = true := by
  simp only [isLexical, Bool.or_eq_true, beq_iff_eq] at h
  rcases h with ((h | rfl) | rfl) | rfl
  · exact isSymbolic_of_isNamePart h
  all_goals rfl

theorem kinds_of_isOpening {c : Char} (h : isOpening c = true) :
    isOrdinary c = false ∧ isClosing c = false ∧ isQuote c = false ∧ c ≠ '/' := by
  simp only [isOpening, Bool.or_eq_true, beq_iff_eq] at h
  rcases h with (rfl | rfl) | rfl <;> decide

theorem kinds_of_isClosing {c : Char} (h : isClosing c = true) :
    isOrdinary c = false ∧ isOpening c = false ∧ isQuote c = false ∧ c ≠ '/' := by
  simp only [isClosing, Bool.or_eq_true, beq_iff_eq] at h
  rcases h with (rfl | rfl) | rfl <;> decide

/-- How texts are tied behind a character at the front of both. -/
structure Behind (T : Nat → List Char → List Char → Prop) (d : Nat) (c : Char)
    (r r' : List Char) : Prop where
  ordinary : isOrdinary c = true → T d r r'
  opening : isOpening c = true → T (d + 1) r r'
  closing : ∀ e, d = e + 1 → isClosing c = true → T e r r'
  quote : IsQuote c → Content c (T d) r r'

inductive Fronts (T : Nat → List Char → List Char → Prop) (d : Nat) :
    List Char → List Char → Prop where
  | nil : Fronts T d [] []
  | cons (c : Char) {r r' : List Char} (h : Behind T d c r r') : Fronts T d (c :: r) (c :: r')
  | comment (c : Char) (hc : c = ' ' ∨ c = '\n') (r r' : List Char) :
      Fronts T d ('/' :: r) (c :: r')
  | feed (r r' : List Char) : Fronts T d ('\n' :: r) ('\r' :: r')
  | past (r' : List Char) : Fronts T d [] (';' :: r')

def Firm (T : List Char → List Char → Prop) : Prop := ∀ t, T [] t → t = []

structure Settled (T : Nat → List Char → List Char → Prop) (d : Nat) (s t : List Char) : Prop where
  tied : T d s t
  left : skipGap s = s
  right : skipGap t = t

/-- Texts behind an operator: tied, or both at a star, which is left of a comment that is never
closed and starts no operand. -/
def Operands (T : Nat → List Char → List Char → Prop) (d : Nat) (s t : List Char) : Prop :=
  T d s t ∨ ∃ r r', s = '*' :: r ∧ t = '*' :: r'

structure Inline (T : List Char → List Char → Prop) (s t : List Char) : Prop where
  tied : T s t
  stop : skipInlineGap s = s

theorem skip_follows (across : Bool) {T U : List Char → List Char → Prop}
    (h : ∀ s t, T s t → U (skip across s) (skip across t)) (n : Nat) :
    Follows 0 n T U (Scan.skip (skip across)) (Scan.skip (skip across)) := fun s t _ hT =>
  .inr ⟨(), _, _, rfl, rfl, h s t hT, (skip_suffix s).length_le, (skip_suffix t).length_le⟩

theorem inlineGap_follows {T : List Char → List Char → Prop}
    (h : ∀ {s t}, T s t → T (skipInlineGap s) (skipInlineGap t)) (n : Nat) :
    Follows 0 n T (Inline T) inlineGap inlineGap :=
  skip_follows false (fun s _ hT => ⟨h hT, skip_skip s⟩) n

theorem atLineEnd_cons (c : Char) (r : List Char) :
    atLineEnd (c :: r) = if isLineEnd c then some ((), r) else none := by
  rw [atLineEnd, bind_apply, satisfy]
  cases isLineEnd c <;> rfl

theorem eq_of_atLineEnd {s r : List Char} {u : Unit} (h : atLineEnd s = some (u, r)) :
    ∃ c, s = c :: r ∧ isLineEnd c = true := by
  cases s with
  | nil => cases h
  | cons c s =>
      rw [atLineEnd_cons, Option.ite_none_right_eq_some] at h
      obtain ⟨hc, heq⟩ := h
      cases heq
      exact ⟨c, rfl, hc⟩

/-- Where a line may end, texts go in lockstep if they do in front of line ends and of comments. -/
theorem lineBreak_leaves {T U : List Char → List Char → Prop} (n : Nat)
    (hskip : ∀ s t, T s t → T (skipInlineGap s) (skipInlineGap t))
    (hnil : ∀ t, T [] t → (atLineEnd t).or (blockComment t) = none)
    (hclosed : ∀ r r' t, T ('/' :: '*' :: r) t → blockEnd true r = some r' →
      ∃ u u', t = '/' :: '*' :: u ∧ blockEnd true u = some u' ∧ U r' u')
    (hunclosed : ∀ r t, T ('/' :: '*' :: r) t → blockEnd true r = none →
      (atLineEnd t).or (blockComment t) = none)
    (hcode : ∀ c r t, NoComment c r → isLineEnd c = false → T (c :: r) t →
      ∃ r', t = c :: r' ∧ NoComment c r')
    (hline : ∀ c r t, isLineEnd c = true → T (c :: r) t →
      ∃ c' r', t = c' :: r' ∧ isLineEnd c' = true ∧ U r r') :
    Follows 0 n T U (do Lexical.inlineGap; atLineEnd <|> blockComment)
      (do Lexical.inlineGap; atLineEnd <|> blockComment) := by
  have hblock (r : List Char) : (atLineEnd ('/' :: '*' :: r)).or (blockComment ('/' :: '*' :: r)) =
      (blockEnd true r).map fun r' => ((), r') := by
    rw [atLineEnd_cons, blockComment_block]
    rfl
  have hlength {r r' : List Char} (h : blockEnd true r = some r') :
      r'.length + 0 ≤ ('/' :: '*' :: r).length :=
    Nat.le_succ_of_le (Nat.le_succ_of_le (blockEnd_suffix h).length_le)
  refine (inlineGap_follows (T := T) (fun h => hskip _ _ h) n).bind fun _ => ?_
  rintro s t - ⟨h, hstop⟩
  rw [orElse_apply, orElse_apply]
  cases s using front_cases with
  | nil => exact .inl ⟨rfl, hnil t h⟩
  | line r => exact (skip_line_ne r hstop).elim
  | closed r r' hr =>
      obtain ⟨u, u', rfl, hu, hU⟩ := hclosed r r' t h hr
      rw [hblock, hblock, hr, hu]
      exact .inr ⟨(), r', u', rfl, rfl, hU, hlength hr, hlength hu⟩
  | unclosed r hr =>
      rw [hblock, hr]
      exact .inl ⟨rfl, hunclosed r t h hr⟩
  | code c r hc =>
      cases hend : isLineEnd c with
      | true =>
          obtain ⟨c', r', rfl, hend', hU⟩ := hline c r t hend h
          rw [atLineEnd_cons, atLineEnd_cons, if_pos hend, if_pos hend']
          exact .inr ⟨(), r, r', rfl, rfl, hU, Nat.le_succ _, Nat.le_succ _⟩
      | false =>
          obtain ⟨r', rfl, hc'⟩ := hcode c r t hc hend h
          rw [atLineEnd_cons, atLineEnd_cons, hend, blockComment_cons hc, blockComment_cons hc']
          exact .inl ⟨rfl, rfl⟩

theorem lineBreak_follows {T : List Char → List Char → Prop} (n : Nat)
    (hskip : ∀ s t, T s t → T (skipInlineGap s) (skipInlineGap t))
    (hnil : ∀ t, T [] t → (atLineEnd t).or (blockComment t) = none)
    (hclosed : ∀ r r' t, T ('/' :: '*' :: r) t → blockEnd true r = some r' →
      ∃ u u', t = '/' :: '*' :: u ∧ blockEnd true u = some u' ∧ T r' u')
    (hunclosed : ∀ r t, T ('/' :: '*' :: r) t → blockEnd true r = none →
      (atLineEnd t).or (blockComment t) = none)
    (hcode : ∀ c r t, NoComment c r → T (c :: r) t →
      ∃ r', t = c :: r' ∧ NoComment c r' ∧ (isLineEnd c = true → T r r')) :
    Follows 0 n T T (do Lexical.inlineGap; atLineEnd <|> blockComment)
      (do Lexical.inlineGap; atLineEnd <|> blockComment) := by
  refine lineBreak_leaves n hskip hnil hclosed hunclosed (fun c r t hc _ h => ?_) fun c r t hend h => ?_
  · obtain ⟨r', ht, hc', -⟩ := hcode c r t hc h
    exact ⟨r', ht, hc'⟩
  · obtain ⟨r', ht, -, hT⟩ := hcode c r t (.of_isGapBlank (isGapBlank_of_isLineEnd hend) r) h
    exact ⟨c, r', ht, hend, hT hend⟩

structure Symbols (T : List Char → List Char → Prop) : Prop where
  agree : ∀ {s t}, T s t → ∀ {p : Char → Bool}, (∀ c, p c = true → isSymbolic c = true) →
    Agree p T s t

namespace Symbols

variable {T : List Char → List Char → Prop} (H : Symbols T) (n : Nat)

include H

theorem char {c : Char} (hc : isSymbolic c = true) :
    Follows 1 n T T (Scan.char c) (Scan.char c) :=
  .char fun _ _ h => H.agree h fun c' hc' => by rw [beq_iff_eq.mp hc', hc]

theorem notNext {p : Char → Bool} (hp : ∀ c, p c = true → isSymbolic c = true) :
    Follows 0 n T T (Scan.notNext p) (Scan.notNext p) :=
  .notNext fun _ _ h => H.agree h hp

theorem chars {c : Char} {w : List Char} (hw : ∀ c' ∈ c :: w, isSymbolic c' = true) :
    Follows 1 n T T (Scan.chars (c :: w)) (Scan.chars (c :: w)) := by
  rw [chars_cons]
  refine (H.char n (hw c List.mem_cons_self)).andThen fun _ => ?_
  cases w with
  | nil => exact .pure ()
  | cons c' w => exact (chars fun x hx => hw x (List.mem_cons_of_mem c hx)).weaken

theorem text {w : String} (hw : isPlain w = true) :
    Follows 1 n T T (Scan.text w) (Scan.text w) := by
  rw [Scan.text]
  rw [isPlain] at hw
  cases hchars : w.toList with
  | nil =>
      rw [hchars] at hw
      cases hw
  | cons c r =>
      rw [hchars, Bool.and_eq_true, List.all_eq_true] at hw
      exact H.chars n hw.1

theorem keyword {w : String} (hw : isPlain w = true) :
    Follows 1 n T T (Lexical.keyword w) (Lexical.keyword w) :=
  (H.text n hw).andThen fun _ => H.notNext n fun _ => isSymbolic_of_isNamePart

theorem lexemes : Lexemes T :=
  ⟨fun h _ hp => H.agree h fun c hc => isSymbolic_of_isLexical (hp c hc)⟩

end Symbols

/-- The characters that statements stand behind, with the open brackets on their two sides. -/
inductive Turns : Nat → Char → Nat → Prop where
  | opening {d : Nat} {c : Char} (h : isOpening c = true) : Turns d c (d + 1)
  | closing {d : Nat} {c : Char} (h : isClosing c = true) : Turns (d + 1) c d
  | semicolon (d : Nat) : Turns d ';' d

theorem Turns.plain {d e : Nat} {c : Char} (h : Turns d c e) :
    c ≠ '/' ∧ c ≠ ' ' ∧ c ≠ '\n' ∧ c ≠ '\r' := by
  cases h with
  | opening h | closing h => refine ⟨?_, ?_, ?_, ?_⟩ <;> rintro rfl <;> cases h
  | semicolon => decide

theorem Turns.behind {T : Nat → List Char → List Char → Prop} {d e : Nat} {c : Char}
    {r r' : List Char} (h : Turns d c e) (hT : Behind T d c r r') : T e r r' := by
  cases h with
  | opening h => exact hT.opening h
  | closing h => exact hT.closing _ rfl h
  | semicolon => exact hT.ordinary rfl

theorem Turns.tail {T : Nat → List Char → List Char → Prop} {d e : Nat} {c : Char}
    {r r' : List Char} (h : Turns d c e) (hT : Fronts T d (c :: r) (c :: r')) : T e r r' := by
  cases hT with
  | cons _ hT => exact h.behind hT
  | comment _ hc => rcases hc with hc | hc <;> cases hc

/-- A tie `T` of texts, and a tie `L` in front of statements: behind a bracket or a semicolon, in
front of what continues no name, and behind the end of a line. -/
structure Tie (T : Nat → List Char → List Char → Prop)
    (L : Nat → List Char → List Char → Prop := T) : Prop where
  fronts : ∀ {d s t}, T d s t → Fronts T d s t
  firm : ∀ d, Firm (T (d + 1))
  gap : ∀ {d s t}, T d s t → T d (skipGap s) (skipGap t)
  turn : ∀ {d c e r r'}, Turns d c e → T d (c :: r) (c :: r') → L e r r'
  leave : ∀ {d s t}, T d s t → (∀ c ∈ s.head?, isNamePart c = false) → L d s t
  gapLeft : ∀ {d s t}, L d s t → Both (T d) (L d) (skipGap s) (skipGap t)
  inlineGap : ∀ {d s t}, T d s t → T d (skipInlineGap s) (skipInlineGap t)
  slash : ∀ {d r r'}, Settled T d ('/' :: r) ('/' :: r') → Operands T d r r'
  lineBreak : ∀ n d, Follows 0 n (T d) (L d) (do Lexical.inlineGap; atLineEnd <|> blockComment)
    (do Lexical.inlineGap; atLineEnd <|> blockComment)

namespace Tie

variable {T L : Nat → List Char → List Char → Prop} (H : Tie T L) {d : Nat} (n : Nat)

include H

theorem agree {p : Char → Bool} {U : List Char → List Char → Prop}
    (hp : p '/' = false ∧ p ' ' = false ∧ p '\n' = false ∧ p '\r' = false ∧ p ';' = false)
    (hU : ∀ c r r', p c = true → Behind T d c r r' → U r r') {s t : List Char} (hT : T d s t) :
    Agree p U s t := by
  cases hf : H.fronts hT with
  | nil => exact .inr ⟨nofun, nofun⟩
  | @cons c r r' h =>
      cases hc : p c with
      | true => exact .inl ⟨c, r, r', hc, rfl, rfl, hU c r r' hc h⟩
      | false => exact .inr ⟨by rintro _ _ ⟨⟩; exact hc, by rintro _ _ ⟨⟩; exact hc⟩
  | comment c hc r r' =>
      refine .inr ⟨by rintro _ _ ⟨⟩; exact hp.1, ?_⟩
      rintro _ _ ⟨⟩
      rcases hc with rfl | rfl
      · exact hp.2.1
      · exact hp.2.2.1
  | feed r r' =>
      exact .inr ⟨by rintro _ _ ⟨⟩; exact hp.2.2.1, by rintro _ _ ⟨⟩; exact hp.2.2.2.1⟩
  | past r' => exact .inr ⟨nofun, by rintro _ _ ⟨⟩; exact hp.2.2.2.2⟩

theorem agreeOrdinary {p : Char → Bool} (hp : ∀ c, p c = true → isSymbolic c = true)
    {s t : List Char} (hT : T d s t) : Agree p (T d) s t := by
  have hnot (c : Char) (hc : isSymbolic c = false) : p c = false := by
    by_contra h
    rw [hp c (by simpa using h)] at hc
    cases hc
  exact H.agree ⟨hnot _ rfl, hnot _ rfl, hnot _ rfl, hnot _ rfl, hnot _ rfl⟩
    (fun c _ _ hc h => h.ordinary (isOrdinary_of_isSymbolic (hp c hc))) hT

theorem symbols : Symbols (T d) := ⟨fun h _ hp => H.agreeOrdinary hp h⟩

theorem char {c : Char} (hc : isSymbolic c = true) :
    Follows 1 n (T d) (T d) (Scan.char c) (Scan.char c) :=
  H.symbols.char n hc

theorem charTurn {c : Char} {e : Nat} (h : Turns d c e) (hc : c = ';' → Firm (T d)) :
    Follows 1 n (T d) (Both (T e) (L e)) (Scan.char c) (Scan.char c) := by
  obtain ⟨hslash, hblank, hfeed, hreturn⟩ := h.plain
  intro s t hs hT
  cases hf : H.fronts hT with
  | nil => exact .inl ⟨rfl, rfl⟩
  | @cons c' r r' hbehind =>
      by_cases hc' : c' = c
      · subst hc'
        exact .inr ⟨(), r, r', if_pos rfl, if_pos rfl, ⟨h.behind hbehind, H.turn h hT⟩,
          Nat.le_refl _, Nat.le_refl _⟩
      · exact .inl ⟨if_neg hc', if_neg hc'⟩
  | comment c' hc' r r' =>
      refine .inl ⟨if_neg hslash.symm, if_neg ?_⟩
      rcases hc' with rfl | rfl
      · exact hblank.symm
      · exact hfeed.symm
  | feed r r' => exact .inl ⟨if_neg hfeed.symm, if_neg hreturn.symm⟩
  | past r' =>
      refine .inl ⟨rfl, if_neg fun hsemi => ?_⟩
      cases hc hsemi.symm _ hT

theorem charOpening {c : Char} (hc : isOpening c = true) :
    Follows 1 n (T d) (Both (T (d + 1)) (L (d + 1))) (Scan.char c) (Scan.char c) :=
  H.charTurn n (.opening hc) (by rintro rfl; cases hc)

theorem charClosing {c : Char} (hc : isClosing c = true) :
    Follows 1 n (T (d + 1)) (Both (T d) (L d)) (Scan.char c) (Scan.char c) :=
  H.charTurn n (.closing hc) (by rintro rfl; cases hc)

theorem opening {c : Char} (hc : isOpening c = true) :
    Follows 1 n (T d) (T (d + 1)) (Scan.char c) (Scan.char c) :=
  (H.charOpening n hc).tied

theorem semicolon (hd : Firm (T d)) :
    Follows 1 n (T d) (Both (T d) (L d)) (Scan.char ';') (Scan.char ';') :=
  H.charTurn n (.semicolon d) fun _ => hd

theorem scanGapLeft : Follows 0 n (L d) (Both (Settled T d) (L d)) Lexical.gap Lexical.gap :=
  skip_follows true (fun s t hL =>
    have hgap := H.gapLeft hL
    ⟨⟨hgap.tied, skip_skip s, skip_skip t⟩, hgap.left⟩) n

theorem scanGap : Follows 0 n (T d) (Settled T d) Lexical.gap Lexical.gap :=
  skip_follows true (fun s t hT => ⟨H.gap hT, skip_skip s, skip_skip t⟩) n

theorem overGap : Follows 0 n (T d) (T d) Lexical.gap Lexical.gap :=
  (H.scanGap n).imp fun _ _ h => h.tied

theorem scanInlineGap : Follows 0 n (T d) (T d) Lexical.inlineGap Lexical.inlineGap :=
  skip_follows false (fun _ _ => H.inlineGap) n

theorem behindGapLeft {α : Type} {k : Nat} {U : List Char → List Char → Prop} {p q : Scan α}
    (h : Follows k n (T d) U p q) :
    Follows k n (L d) U (do Lexical.gap; p) (do Lexical.gap; q) :=
  ((H.scanGapLeft n).tied.imp fun _ _ h => h.tied).bind fun _ => h

theorem behindGap {α : Type} {k : Nat} {U : List Char → List Char → Prop} {p q : Scan α}
    (h : Follows k n (T d) U p q) :
    Follows k n (T d) U (do Lexical.gap; p) (do Lexical.gap; q) :=
  (H.overGap n).bind fun _ => h

theorem markOpening {c : Char} (hc : isOpening c = true) :
    Follows 1 n (T d) (Both (T (d + 1)) (L (d + 1))) (mark c) (mark c) :=
  H.behindGap n (H.charOpening n hc)

theorem markClosingLeft {c : Char} (hc : isClosing c = true) :
    Follows 1 n (L (d + 1)) (Both (T d) (L d)) (mark c) (mark c) :=
  H.behindGapLeft n (H.charClosing n hc)

theorem markClosing {c : Char} (hc : isClosing c = true) :
    Follows 1 n (T (d + 1)) (Both (T d) (L d)) (mark c) (mark c) :=
  H.behindGap n (H.charClosing n hc)

theorem mark {c : Char} (hc : isSymbolic c = true) :
    Follows 1 n (T d) (T d) (Grammar.mark c) (Grammar.mark c) :=
  H.behindGap n (H.char n hc)

theorem markSemicolon (hd : Firm (T d)) :
    Follows 1 n (T d) (T d) (Grammar.mark ';') (Grammar.mark ';') :=
  H.behindGap n (H.semicolon n hd).tied

theorem text {w : String} (hw : isPlain w = true) :
    Follows 1 n (T d) (T d) (Scan.text w) (Scan.text w) :=
  H.symbols.text n hw

theorem keyword {w : String} (hw : isPlain w = true) :
    Follows 1 n (T d) (T d) (Lexical.keyword w) (Lexical.keyword w) :=
  H.symbols.keyword n hw

theorem keywordLeft {w : String} (hw : isPlain w = true) :
    Follows 1 n (T d) (L d) (Lexical.keyword w) (Lexical.keyword w) :=
  (H.text n hw).andThen fun _ => (Follows.notNextOf fun _ _ h =>
    H.agreeOrdinary (fun _ => isSymbolic_of_isNamePart) h).imp fun _ _ h => H.leave h.1 h.2

theorem name : Follows 1 n (T d) (T d) Lexical.name Lexical.name :=
  H.symbols.lexemes.name n

theorem identifier : Follows 1 n (T d) (T d) Lexical.identifier Lexical.identifier :=
  H.symbols.lexemes.identifier n

theorem numeral : Follows 1 n (T d) (T d) Number.Numeral.numeral Number.Numeral.numeral :=
  H.symbols.lexemes.numeral n

theorem quoted : Follows 1 n (T d) (T d) Lexical.quoted Lexical.quoted := by
  refine quoted_follows n fun q hq s t hT => H.agree ?_ (fun c r r' hc h => ?_) hT
  · rcases hq with rfl | rfl <;> exact ⟨rfl, rfl, rfl, rfl, rfl⟩
  · rw [beq_iff_eq] at hc
    exact hc ▸ h.quote (hc ▸ hq)

theorem charSlash : Follows 1 n (Settled T d) (Operands T d) (Scan.char '/') (Scan.char '/') := by
  intro s t hs hT
  cases hf : H.fronts hT.tied with
  | nil => exact .inl ⟨rfl, rfl⟩
  | @cons c r r' h =>
      by_cases hc : c = '/'
      · subst hc
        exact .inr ⟨(), r, r', rfl, rfl, H.slash hT, Nat.le_refl _, Nat.le_refl _⟩
      · exact .inl ⟨if_neg hc, if_neg hc⟩
  | comment c hc r r' =>
      have hblank : isGapBlank true c = true := by rcases hc with rfl | rfl <;> rfl
      have hskip := hT.right
      rw [skipGap, ← Lexical.skip, skip_blank hblank] at hskip
      have hlength : (Lexical.skip true r').length ≤ r'.length := (skip_suffix r').length_le
      rw [hskip] at hlength
      exact (Nat.not_succ_le_self _ hlength).elim
  | feed r r' => exact .inl ⟨rfl, rfl⟩
  | past r' => exact .inl ⟨rfl, rfl⟩

theorem symbol {w : String} (hw : isPlain w = true ∨ w = "/") :
    Follows 1 n (Settled T d) (Operands T d) (Scan.text w) (Scan.text w) := by
  rcases hw with hw | rfl
  · exact ((H.text n hw).on fun _ _ h => h.tied).imp fun _ _ h => .inl h
  · rw [Scan.text, show "/".toList = ['/'] from rfl, chars_cons]
    exact (H.charSlash n).andThen fun _ => .pure ()

theorem charOperand {c : Char} (hc : isSymbolic c = true) (hstar : c ≠ '*') :
    Follows 1 n (Operands T d) (T d) (Scan.char c) (Scan.char c) := by
  rintro s t hs (hT | ⟨r, r', rfl, rfl⟩)
  · exact H.char n hc s t hs hT
  · exact .inl ⟨if_neg hstar.symm, if_neg hstar.symm⟩

theorem notNextOperand {p : Char → Bool} (hp : ∀ c, p c = true → isSymbolic c = true) :
    Follows 0 n (Operands T d) (Operands T d) (Scan.notNext p) (Scan.notNext p) := by
  rintro s t hs (hT | ⟨r, r', rfl, rfl⟩)
  · exact ((H.symbols.notNext n hp).imp fun _ _ h => .inl h) s t hs hT
  · simp only [Scan.notNext]
    cases p '*' with
    | true => exact .inl ⟨rfl, rfl⟩
    | false =>
        exact .inr ⟨(), _, _, rfl, rfl, .inr ⟨r, r', rfl, rfl⟩, Nat.le_refl _, Nat.le_refl _⟩

end Tie

end SmallScript.Grammar
