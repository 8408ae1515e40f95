import SmallScript.Number.Reading
import SmallScript.Proofs.Number.FloatText
import Mathlib

namespace SmallScript.Number

open Lexical Scan Numeral Double

theorem Numeral.numeral_whole_iff {t : List Char} {x : Float} :
    numeral t = some (x, []) ↔ ∃ f : Form, f.text = t ∧ f.Fits ∧ x = f.read := by
  constructor
  · intro h
    obtain ⟨f, hleads, hfits⟩ := leads_of_numeral h
    cases h.symm.trans (numeral_of_leads hleads hfits)
    exact ⟨f, (List.append_nil f.text).symm.trans hleads.start.symm, hfits, rfl⟩
  · rintro ⟨f, rfl, hfits, rfl⟩
    exact numeral_of_leads ⟨(List.append_nil _).symm, fun _ h => h.length_le, nofun⟩ hfits

namespace Reading

/-- A plus sign stands behind the mark of a hexadecimal numeral. -/
def HexPlus (t : List Char) : Prop := ∃ c r, (c = 'x' ∨ c = 'X') ∧ t = '0' :: c :: '+' :: r

variable {s : String} {t r : List Char} {c : Char} {x : Float}

theorem isNaN_nan : nan.isNaN = true := by decide

theorem ofTrimmed_hex (hc : c = 'x' ∨ c = 'X') (r : List Char) :
    ofTrimmed ('0' :: c :: r) = hexadecimal r := by
  rcases hc with rfl | rfl <;> rfl

theorem hexadecimal_of_ne (h : ∀ u, r ≠ '+' :: u) :
    hexadecimal r = if r ≠ [] ∧ r.all isHexDigit then (hexValue? r).getD nan else nan := by
  rw [hexadecimal]
  exact h

theorem ofTrimmed_unsigned (hne : t ≠ []) (hhex : ∀ c r, c = 'x' ∨ c = 'X' → t ≠ '0' :: c :: r)
    (hsign : ∀ r, t ≠ '+' :: r ∧ t ≠ '-' :: r) (hinf : t ≠ "Infinity".toList) :
    ofTrimmed t = if t.all isFloatChar then (FloatText.unsigned? t).getD nan else nan := by
  have hplus : t ≠ "+Infinity".toList := (hsign _).1
  have hminus : t ≠ "-Infinity".toList := (hsign _).2
  have hunsigned : FloatText.read? t = FloatText.unsigned? t := by
    fun_cases FloatText.read? t with
    | case1 r => exact ((hsign r).2 rfl).elim
    | case2 r => exact ((hsign r).1 rfl).elim
    | case3 => rfl
  fun_cases ofTrimmed t with
  | case1 => exact (hne rfl).elim
  | case2 r => exact (hhex 'x' r (.inl rfl) rfl).elim
  | case3 r => exact (hhex 'X' r (.inr rfl) rfl).elim
  | case4 _ _ _ _ h => exact (h.elim hinf hplus).elim
  | case5 => exact (hminus rfl).elim
  | case6 _ _ _ _ _ _ hall => rw [if_pos hall, hunsigned]
  | case7 _ _ _ _ _ _ hall => rw [if_neg hall]

theorem isFloatChar_of_mem_text (g : Decimal) : ∀ c ∈ g.text, isFloatChar c = true := by
  intro c h
  rcases g.isDigit_or_mem c h with hc | hc
  · simp only [isFloatChar, hc, Bool.true_or]
  · revert hc
    simp only [List.mem_cons, List.not_mem_nil, or_false]
    rintro (rfl | rfl | rfl | rfl | rfl) <;> rfl

/-- A decimal numeral passes the look at its characters, and is read as a double. -/
theorem unsigned_text (g : Decimal) :
    (if g.text.all isFloatChar then (FloatText.unsigned? g.text).getD nan else nan) = g.read := by
  rw [if_pos (List.all_eq_true.mpr (isFloatChar_of_mem_text g)), FloatText.unsigned?,
    FloatText.number?_text]
  rfl

theorem toLower_of_isDigit (h : isDigit c = true) : c.toLower = c := by
  simp only [isDigit, decide_eq_true_eq] at h
  have hupper : ¬(c.val ≥ 'A'.val ∧ c.val ≤ 'Z'.val) := fun hc =>
    absurd (UInt32.le_trans hc.1 h.2) (by decide)
  rw [Char.toLower, dif_neg hupper]

theorem isFloatChar_toLower (h : isFloatChar c = true) : isFloatChar c.toLower = true := by
  by_cases hdigit : isDigit c = true
  · rwa [toLower_of_isDigit hdigit]
  · simp only [isFloatChar, Bool.eq_false_of_not_eq_true hdigit, Bool.false_or, Bool.or_eq_true,
      beq_iff_eq] at h
    rcases h with (((rfl | rfl) | rfl) | rfl) | rfl <;> rfl

theorem named?_eq_none (h : ∀ c ∈ t, isFloatChar c = true) : FloatText.named? t = none := by
  have hfirst {d : Char} {w : List Char} (hd : isFloatChar d = false) :
      t.map Char.toLower ≠ d :: w := by
    intro hw
    obtain ⟨c, r, rfl, rfl, -⟩ := List.map_eq_cons_iff.mp hw
    cases hd.symm.trans (isFloatChar_toLower (h c List.mem_cons_self))
  have hinf : ¬(t.map Char.toLower = "inf".toList ∨ t.map Char.toLower = "infinity".toList) :=
    not_or.mpr ⟨hfirst rfl, hfirst rfl⟩
  have hnan : t.map Char.toLower ≠ "nan".toList := hfirst rfl
  rw [FloatText.named?, if_neg hinf, if_neg hnan]

theorem Form.isNaN_read (f : Form) : f.read.isNaN = false := by
  cases f with
  | hexadecimal h => exact (isMagnitude_ofRatio _ 1).1
  | decimal g => exact (isMagnitude_ofDecimal _ _).1

/-- Numerals are read alike as texts. -/
theorem ofTrimmed_text {f : Form} (hfits : f.Fits)
    (hsign : ∀ r, f.text ≠ '+' :: r ∧ f.text ≠ '-' :: r) (hinf : f.text ≠ "Infinity".toList) :
    ofTrimmed f.text = f.read ∧ ¬HexPlus f.text := by
  cases f with
  | hexadecimal h =>
      have hplus (u : List Char) : h.digits ≠ '+' :: u := fun hu => by
        cases h.isDigits '+' (hu ▸ List.mem_cons_self)
      have hvalue : hexValue? h.digits = some (ofNat (numberOf 16 h.digits)) := if_pos hfits
      refine ⟨?_, ?_⟩
      · rw [Form.text, Hexadecimal.text, ofTrimmed_hex h.isMark, hexadecimal_of_ne hplus,
          if_pos ⟨h.ne_nil, List.all_eq_true.mpr h.isDigits⟩, hvalue]
        rfl
      · rintro ⟨c, r, -, hr⟩
        exact hplus r (List.cons.inj (List.cons.inj hr).2).2
  | decimal g =>
      have hmark (c : Char) (r : List Char) (hc : c = 'x' ∨ c = 'X') : g.text ≠ '0' :: c :: r := by
        intro hr
        have hnot := g.not_x c (by simp [hr])
        exact hc.elim hnot.1 hnot.2
      refine ⟨(ofTrimmed_unsigned g.text_ne_nil hmark hsign hinf).trans (unsigned_text g), ?_⟩
      rintro ⟨c, r, hc, hr⟩
      exact hmark c _ hc hr

theorem form_of_ofTrimmed (hne : t ≠ []) (hsign : ∀ r, t ≠ '+' :: r ∧ t ≠ '-' :: r)
    (hinf : t ≠ "Infinity".toList) (hnan : (ofTrimmed t).isNaN = false) (hplus : ¬HexPlus t) :
    ∃ f : Form, f.text = t ∧ f.Fits := by
  by_cases hhex : ∃ c r, (c = 'x' ∨ c = 'X') ∧ t = '0' :: c :: r
  · obtain ⟨c, r, hc, rfl⟩ := hhex
    have hdigits : ∀ u, r ≠ '+' :: u := by
      rintro u rfl
      exact hplus ⟨c, u, hc, rfl⟩
    rw [ofTrimmed_hex hc, hexadecimal_of_ne hdigits] at hnan
    by_cases hall : r ≠ [] ∧ r.all isHexDigit
    · rw [if_pos hall, hexValue?] at hnan
      by_cases hfits : numberOf 16 r < Nat.pow 2 64
      · exact ⟨.hexadecimal ⟨c, r, hc, hall.1, List.all_eq_true.mp hall.2⟩, rfl, hfits⟩
      · rw [if_neg hfits] at hnan
        cases hnan.symm.trans isNaN_nan
    · rw [if_neg hall] at hnan
      cases hnan.symm.trans isNaN_nan
  · rw [ofTrimmed_unsigned hne (fun c r hc h => hhex ⟨c, r, hc, h⟩) hsign hinf] at hnan
    by_cases hall : t.all isFloatChar = true
    · rw [if_pos hall, FloatText.unsigned?, named?_eq_none (List.all_eq_true.mp hall)] at hnan
      cases hx : FloatText.number? t with
      | none =>
          rw [hx] at hnan
          cases hnan.symm.trans isNaN_nan
      | some x =>
          obtain ⟨g, hg, -⟩ := decimal_sound (FloatText.number?_eq_some_iff.mp hx)
          exact ⟨.decimal g, (hg.trans (List.append_nil _)).symm, trivial⟩
    · rw [if_neg hall] at hnan
      cases hnan.symm.trans isNaN_nan

/-- A text is read as a number if it is a numeral, apart from signs and infinity. -/
theorem ofString_eq_iff (hne : Text.trim s.toList ≠ [])
    (hsign : ∀ r, Text.trim s.toList ≠ '+' :: r ∧ Text.trim s.toList ≠ '-' :: r)
    (hinf : Text.trim s.toList ≠ "Infinity".toList) :
    numeral (Text.trim s.toList) = some (x, []) ↔
      ofString s = x ∧ x.isNaN = false ∧ ¬HexPlus (Text.trim s.toList) := by
  rw [Numeral.numeral_whole_iff, ofString]
  generalize Text.trim s.toList = t at *
  constructor
  · rintro ⟨f, rfl, hfits, rfl⟩
    obtain ⟨hread, hplus⟩ := ofTrimmed_text hfits hsign hinf
    exact ⟨hread, Form.isNaN_read f, hplus⟩
  · rintro ⟨rfl, hnan, hplus⟩
    obtain ⟨f, rfl, hfits⟩ := form_of_ofTrimmed hne hsign hinf hnan hplus
    exact ⟨f, rfl, hfits, (ofTrimmed_text hfits hsign hinf).1⟩

/-- A hexadecimal numeral between blanks. -/
theorem ofString_eq_iff_blanks :
    numeral "0x1F".toList = some (ofNat 31, []) ∧ ofString " 0x1F\n" = ofNat 31 := by
  have htrim : Text.trim " 0x1F\n".toList = "0x1F".toList := by decide
  have hread : numeral "0x1F".toList = some (ofNat 31, []) := rfl
  have hiff := ofString_eq_iff (s := " 0x1F\n") (x := ofNat 31) (by rw [htrim]; exact nofun)
    (by rw [htrim]; exact fun _ => ⟨nofun, nofun⟩) (by rw [htrim]; decide)
  rw [htrim] at hiff
  exact ⟨hread, (hiff.mp hread).1⟩

end Reading

end SmallScript.Number
