import SmallScript.Proofs.Gives
import SmallScript.Proofs.Grammar.Operand
import SmallScript.Proofs.Printed.Token
import SmallScript.Proofs.Shape

namespace SmallScript

open Grammar Lexical Scan

namespace Token

/-- A name, or a symbol that is no gap and starts none in front of a blank. -/
def isProper (w : String) : Bool :=
  isWord w || match w.toList with
    | '/' :: cs => cs == ['=']
    | c :: _ => !isGapBlank true c && !isNameStart c
    | [] => false

def Proper : Token → Prop
  | word w => isProper w = true
  | number _ | string _ => True

def Avoids (F : Char → Bool) (t : Token) : Prop :=
  ∀ s, t.Writes s → ∃ c u, s = c :: u ∧ F c = false

/-- Texts of the tokens, each with a space in front of it, and texts of the kind `K` behind them. -/
def Spaced : List Token → (List Char → Prop) → List Char → Prop
  | [], K => K
  | t :: ts, K => fun s => ∃ l r, s = ' ' :: (l ++ r) ∧ t.Writes l ∧ Spaced ts K r

def Flush (ts : List Token) (K : List Char → Prop) (s : List Char) : Prop := Spaced ts K (' ' :: s)

end Token

open Token

variable {t : Token} {ts us : List Token} {K : List Char → Prop} {w : String} {s k : List Char}
  {F : Char → Bool} {across : Bool}

theorem spaced_append : Spaced (ts ++ us) K = Spaced ts (Spaced us K) := by
  induction ts with
  | nil => rfl
  | cons t ts ih => rw [List.cons_append, Spaced, Spaced, ih]

theorem flush_append : Flush (ts ++ us) K = Flush ts (Spaced us K) := by
  funext s
  rw [Flush, spaced_append, Flush]

theorem flush_cons : Flush (t :: ts) K s ↔ ∃ l r, s = l ++ r ∧ t.Writes l ∧ Spaced ts K r := by
  simp only [Flush, Spaced, List.cons.injEq, true_and]

def Follower (Q : List Char → Prop) (K : List Char → Prop) : Prop := ∀ k, K k → Q k

theorem ends_space (s : List Char) : Ends (' ' :: s) := by
  rintro _ _ ⟨⟩
  rfl

theorem ends_spaced (hK : Follower Ends K) : Follower Ends (Spaced ts K) := by
  cases ts with
  | nil => exact hK
  | cons t ts =>
      rintro _ ⟨l, r, rfl, -⟩
      exact ends_space _

theorem ends_spaced_cons : Follower Ends (Spaced (t :: ts) K) := by
  rintro _ ⟨l, r, rfl, -⟩
  exact ends_space _

namespace Token

theorem avoids_word {c : Char} {cs : List Char} (hw : w.toList = c :: cs) (hc : F c = false) :
    (word w).Avoids F := by
  rintro _ rfl
  exact ⟨c, cs, hw, hc⟩

theorem avoids_number {x : Float} (h : ∀ c, (isDigit c || c == '.') = true → F c = false) :
    (number x).Avoids F := by
  intro s hs
  obtain ⟨c, u, rfl, hc⟩ := Number.Numeral.numeral_first.front hs
  exact ⟨c, u, rfl, h c hc⟩

theorem avoids_string {v : String} (h : F '"' = false) : (string v).Avoids F := by
  rintro _ rfl
  exact ⟨'"', _, rfl, h⟩

theorem avoids_name (hw : isWord w = true) (h : ∀ c, isNameStart c = true → F c = false) :
    (word w).Avoids F := by
  rintro _ rfl
  rw [isWord] at hw
  cases hs : w.toList with
  | nil =>
      rw [hs] at hw
      cases hw
  | cons c cs =>
      rw [hs] at hw
      exact ⟨c, cs, rfl, h c (Bool.and_eq_true_iff.mp hw).1⟩

end Token

theorem refuses_first {α : Type} {p : Scan α} (hp : First F p) (ht : t.Avoids F) :
    Refuses (Flush (t :: ts) K) p := by
  intro s hs
  obtain ⟨l, r, rfl, hl, -⟩ := flush_cons.mp hs
  obtain ⟨c, u, rfl, hc⟩ := ht l hl
  exact hp.cons hc

theorem isGapBlank_of_isLexical {c : Char} (h : isLexical c = true) : isGapBlank across c = false := by
  rw [← Bool.not_eq_true]
  intro hc
  have hblank : isGapBlank true c = true := by
    cases across with
    | true => exact hc
    | false =>
        rw [isGapBlank, Bool.false_and, Bool.or_false] at hc
        rw [isGapBlank, hc, Bool.true_or]
  exact Bool.false_ne_true ((isLexical_of_isGapBlank hblank).symm.trans h)

theorem skip_token (ht : t.Proper) {l : List Char} (hl : t.Writes l) (r : List Char) :
    skip across (l ++ r) = l ++ r := by
  have hfront {c : Char} {u : List Char} (hblank : isGapBlank across c = false) (hslash : c ≠ '/') :
      skip across (c :: u) = c :: u :=
    skip_stop hblank (fun _ h => (hslash h).elim) fun _ h => (hslash h).elim
  have hlexical {c : Char} {u : List Char} (hc : isLexical c = true) :
      skip across (c :: u) = c :: u := by
    refine hfront (isGapBlank_of_isLexical hc) ?_
    rintro rfl
    cases hc
  cases t with
  | number x =>
      obtain ⟨c, u, rfl, hc⟩ := Number.Numeral.numeral_first.front hl
      rw [Bool.or_eq_true, beq_iff_eq] at hc
      rcases hc with hc | rfl
      · exact hlexical (isLexical_of_isNamePart (isNamePart_of_isDigit hc))
      · exact hlexical rfl
  | string v =>
      cases hl
      exact hfront (by cases across <;> rfl) (by decide)
  | word w =>
      subst hl
      rw [Proper, isProper, Bool.or_eq_true] at ht
      rcases ht with ht | ht
      · obtain ⟨c, u, hw, hc⟩ := avoids_name (F := fun c => !isNameStart c) ht
          (fun _ h => by rw [h]; rfl) _ rfl
        rw [hw]
        exact hlexical (isLexical_of_isNamePart (isNamePart_of_isNameStart (by simpa using hc)))
      · split at ht
        next cs hw =>
          rw [hw, beq_iff_eq.mp ht]
          exact skip_stop (by cases across <;> rfl) (fun _ _ => nofun) fun _ _ => nofun
        next c cs hslash hw =>
          rw [hw]
          rw [Bool.and_eq_true, Bool.not_eq_true'] at ht
          refine hfront ?_ (by rintro rfl; exact hslash rfl)
          cases across with
          | true => exact ht.1
          | false =>
              rw [isGapBlank, Bool.true_and, Bool.or_eq_false_iff] at ht
              rw [isGapBlank, ht.1.1, Bool.false_and, Bool.false_or]
        next => cases ht

theorem flush_skip (ht : t.Proper) (h : Flush (t :: ts) K s) : skip across s = s := by
  obtain ⟨l, r, rfl, hl, -⟩ := flush_cons.mp h
  exact skip_token ht hl r

theorem spaced_skip (ht : t.Proper) (h : Spaced (t :: ts) K s) : Flush (t :: ts) K (skip across s) := by
  obtain ⟨l, r, rfl, hl, hr⟩ := h
  rw [skip_blank (by cases across <;> rfl), skip_token ht hl]
  exact flush_cons.mpr ⟨l, r, rfl, hl, hr⟩

theorem gives_gap (ht : t.Proper) : Gives (Spaced (t :: ts) K) gap () (Flush (t :: ts) K) :=
  fun _ hs => ⟨_, rfl, spaced_skip ht hs⟩

theorem gives_inlineGap (ht : t.Proper) :
    Gives (Spaced (t :: ts) K) inlineGap () (Flush (t :: ts) K) :=
  fun _ hs => ⟨_, rfl, spaced_skip ht hs⟩

theorem gives_text (w : String) : Gives (Flush (.word w :: ts) K) (text w) () (Spaced ts K) := by
  intro s hs
  obtain ⟨_, r, rfl, rfl, hr⟩ := flush_cons.mp hs
  exact ⟨r, chars_append _ r, hr⟩

theorem gives_char {c : Char} (hw : w.toList = [c]) :
    Gives (Flush (.word w :: ts) K) (char c) () (Spaced ts K) := by
  intro s hs
  obtain ⟨_, r, rfl, rfl, hr⟩ := flush_cons.mp hs
  rw [hw]
  exact ⟨r, char_self c r, hr⟩

theorem gives_mark {c : Char} (hw : w.toList = [c]) (ht : isProper w = true) :
    Gives (Spaced (.word w :: ts) K) (Grammar.mark c) () (Spaced ts K) :=
  (gives_gap (t := .word w) ht).bind (gives_char hw)

theorem refuses_mark {c : Char} (ht : t.Proper) (hc : t.Avoids (· == c)) :
    Refuses (Spaced (t :: ts) K) (mark c) :=
  (gives_gap ht).refuses (refuses_first (.char c) hc)

theorem gives_quoted (v : String) : Gives (Flush (.string v :: ts) K) quoted v (Spaced ts K) := by
  intro s hs
  obtain ⟨_, r, rfl, rfl, hr⟩ := flush_cons.mp hs
  exact ⟨r, quoted_literal v r, hr⟩

theorem proper_of_isWord (hw : isWord w = true) : (word w).Proper := by
  rw [Proper, isProper, hw, Bool.true_or]

theorem isWord_of_isIdentifier (hw : IsIdentifier w) : isWord w = true :=
  (name_eq_some_iff.mp (identifier_eq_some_iff.mp hw).1).2.1

theorem ne_of_isIdentifier (hw : IsIdentifier w) {v : String} (hv : v ∈ reservedWords) :
    word w ≠ word v := by
  rintro ⟨⟩
  exact (identifier_eq_some_iff.mp hw).2 hv

section

variable {α : Type} {f : Unit → Scan α} {a : α} {P Q : List Char → Prop}

/-- The texts that differ from one of the kind `K` in the gap in front of them. -/
def UpToGap (K : List Char → Prop) (r : List Char) : Prop := ∃ k, K k ∧ skipGap r = skipGap k

theorem upToGap (h : Q s) : UpToGap Q s := ⟨s, h, rfl⟩

theorem gap_bind_eq {r : List Char} (h : skipGap r = skipGap k) : (gap >>= f) r = (gap >>= f) k := by
  show f () (skipGap r) = f () (skipGap k)
  rw [h]

theorem Scan.Gives.behindGap (h : Gives P (gap >>= f) a Q) : Gives (UpToGap P) (gap >>= f) a Q := by
  rintro r ⟨k, hk, hgap⟩
  rw [gap_bind_eq hgap]
  exact h k hk

theorem Scan.Refuses.behindGap (h : Refuses P (gap >>= f)) : Refuses (UpToGap P) (gap >>= f) := by
  rintro r ⟨k, hk, hgap⟩
  rw [gap_bind_eq hgap]
  exact h k hk

theorem Scan.Gives.manyBehindGap {as : List α} (h : Gives P (Scan.many (gap >>= f)) as (UpToGap Q)) :
    Gives (UpToGap P) (Scan.many (gap >>= f)) as (UpToGap Q) := by
  rintro r ⟨k, hk, hgap⟩
  obtain ⟨u, hu, v, hv, hskip⟩ := h k hk
  cases hfails : (gap >>= f) k with
  | none =>
      rw [many_of_none hfails] at hu
      cases hu
      exact ⟨r, many_of_none ((gap_bind_eq hgap).trans hfails), v, hv, hgap.trans hskip⟩
  | some x =>
      rw [Scan.many, repeated, hfails] at hu
      refine ⟨u, ?_, v, hv, hskip⟩
      rw [Scan.many, repeated, gap_bind_eq hgap, hfails]
      exact hu

end

variable (hK : Follower Ends K)

include hK

theorem notNext_ends (hs : Spaced ts K s) : notNext isNamePart s = some ((), s) := by
  refine notNext_eq_some_iff.mpr ⟨rfl, fun c r hr => ?_⟩
  rw [← Bool.not_eq_true]
  intro hc
  have hlexical := ends_spaced hK s hs c r hr
  rw [isLexical_of_isNamePart hc] at hlexical
  cases hlexical

theorem gives_keyword (w : String) :
    Gives (Flush (.word w :: ts) K) (keyword w) () (Spaced ts K) := by
  refine (gives_text w).bind fun s hs => ?_
  exact ⟨s, notNext_ends hK hs, hs⟩

theorem gives_name (hw : isWord w = true) :
    Gives (Flush (.word w :: ts) K) name w (Spaced ts K) := by
  intro s hs
  obtain ⟨_, r, rfl, rfl, hr⟩ := flush_cons.mp hs
  refine ⟨r, name_eq_some_iff.mpr ⟨rfl, hw, ?_⟩, hr⟩
  exact (notNext_eq_some_iff.mp (notNext_ends hK hr)).2

theorem gives_identifier (hw : IsIdentifier w) :
    Gives (Flush (.word w :: ts) K) identifier w (Spaced ts K) := by
  intro s hs
  obtain ⟨_, r, rfl, rfl, hr⟩ := flush_cons.mp hs
  exact ⟨r, identifier_append (ends_spaced hK r hr) hw, hr⟩

theorem refuses_keyword (ht : t.Proper) (hw : isWord w = true) (hne : t ≠ .word w) :
    Refuses (Flush (t :: ts) K) (keyword w) := by
  intro s hs
  obtain ⟨l, r, rfl, hl, hr⟩ := flush_cons.mp hs
  rw [Option.eq_none_iff_forall_ne_some]
  intro x hx
  rw [keyword_eq_some_iff hw] at hx
  have hother (h : t.Avoids isNameStart) : False := by
    obtain ⟨c, u, rfl, hc⟩ := h l hl
    cases (name_first.cons hc).symm.trans hx
  cases t with
  | number y =>
      refine hother (avoids_number fun c hc => ?_)
      rw [Bool.or_eq_true, beq_iff_eq] at hc
      rcases hc with hc | rfl
      · exact isNameStart_of_isDigit hc
      · rfl
  | string v => exact hother (avoids_string rfl)
  | word v =>
      subst hl
      rw [Proper, isProper, Bool.or_eq_true] at ht
      rcases ht with ht | ht
      · have hname := name_eq_some_iff.mpr ⟨rfl, ht,
          (notNext_eq_some_iff.mp (notNext_ends hK hr)).2⟩
        cases hname.symm.trans hx
        exact hne rfl
      · split at ht
        next cs hv => exact hother (avoids_word hv rfl)
        next c cs _ hv =>
          rw [Bool.and_eq_true, Bool.not_eq_true'] at ht
          exact hother (avoids_word hv (by simpa using ht.2))
        next => cases ht

end SmallScript
