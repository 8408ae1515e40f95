import SmallScript.Proofs.Covers
import SmallScript.Proofs.Lexical.Lexeme
import SmallScript.Proofs.Number.Rounding
import Mathlib

namespace SmallScript.Number.Numeral

open Lexical Scan Double

/-- The exponent of a numeral. -/
structure Exponent where
  mark : Char
  sign : Option Char
  digits : List Char
  isMark : mark = 'e' ∨ mark = 'E'
  isSign : ∀ c ∈ sign, c = '+' ∨ c = '-'
  ne_nil : digits ≠ []
  isDigits : ∀ c ∈ digits, isDigit c = true

/-- The digits of a decimal numeral, and behind a point those of its fraction. -/
structure Mantissa where
  whole : List Char
  fraction : Option (List Char)
  isWhole : ∀ c ∈ whole, isDigit c = true
  isFraction : ∀ c ∈ fraction.getD [], isDigit c = true
  ne_nil : whole ++ fraction.getD [] ≠ []

structure Decimal where
  mantissa : Mantissa
  exponent : Option Exponent

structure Hexadecimal where
  mark : Char
  digits : List Char
  isMark : mark = 'x' ∨ mark = 'X'
  ne_nil : digits ≠ []
  isDigits : ∀ c ∈ digits, isHexDigit c = true

inductive Form where
  | hexadecimal (h : Hexadecimal)
  | decimal (g : Decimal)

namespace Exponent

variable (x : Exponent)

def text : List Char := x.mark :: (x.sign.toList ++ x.digits)

def signed (n : ℕ) : ℤ := if x.sign = some '-' then -n else n

def value : ℤ := x.signed (numberOf 10 x.digits)

def read : ℤ := x.signed (exponentOf x.digits)

end Exponent

namespace Mantissa

variable (m : Mantissa)

def text : List Char := m.whole ++ m.fraction.elim [] ('.' :: ·)

def digits : List Char := m.whole ++ m.fraction.getD []

def places : ℕ := (m.fraction.getD []).length

end Mantissa

namespace Decimal

variable (g : Decimal)

def text : List Char := g.mantissa.text ++ g.exponent.elim [] Exponent.text

def value : ℚ := numberOf 10 g.mantissa.digits *
  10 ^ (g.exponent.elim 0 Exponent.value - g.mantissa.places)

def read : Float :=
  ofDecimal (numberOf 10 g.mantissa.digits) (g.exponent.elim 0 Exponent.read - g.mantissa.places)

end Decimal

def Hexadecimal.text (h : Hexadecimal) : List Char := '0' :: h.mark :: h.digits

namespace Form

def text : Form → List Char
  | .hexadecimal h => h.text
  | .decimal g => g.text

def value : Form → ℚ
  | .hexadecimal h => numberOf 16 h.digits
  | .decimal g => g.value

/-- Hexadecimal numerals are small enough to be read. -/
def Fits : Form → Prop
  | .hexadecimal h => numberOf 16 h.digits < 2 ^ 64
  | .decimal _ => True

/-- The exponent is read to its last digit, or the other digits are too few to make up for the
digits that are not. -/
def Clear : Form → Prop
  | .hexadecimal _ => True
  | .decimal g =>
    (∀ x ∈ g.exponent, numberOf 10 x.digits < 10 * 2 ^ 16) ∨ g.mantissa.digits.length ≤ 60000

/-- The longest numeral in front of a text, with no name going on behind it. -/
structure Leads (f : Form) (s r : List Char) : Prop where
  start : s = f.text ++ r
  longest : ∀ f' : Form, f'.text <+: s → f'.text.length ≤ f.text.length
  ends : ∀ c v, r = c :: v → isNamePart c = false

end Form

theorem covers_exponent (x : Exponent) : Covers isDigit exponent x.text x.read := by
  intro u
  obtain ⟨ds, r, hr, hreach⟩ := Covers.run1 x.ne_nil x.isDigits u
  refine ⟨x.signed (exponentOf ds), r, ?_, hreach.short, fun hlength => ?_, hreach.stop⟩
  · have hmark : satisfy (fun c => c == 'e' || c == 'E') (x.text ++ u) =
        some (x.mark, x.sign.toList ++ (x.digits ++ u)) := by
      rw [← List.append_assoc]
      exact if_pos (by simpa using x.isMark)
    rw [exponent, bind_of_some hmark, bind_of_some (maybe_sign x.ne_nil x.isDigits x.isSign u),
      bind_of_some hr]
    rfl
  · rw [hreach.same hlength]
    rfl

def isMantissa (c : Char) : Bool := isDigit c || c == '.'

theorem first_exponent : First (fun c => c == 'e' || c == 'E') exponent := First.satisfy.bind

theorem exponent_sound {s r : List Char} {e : ℤ} (h : exponent s = some (e, r)) :
    ∃ x : Exponent, s = x.text ++ r ∧ e = x.read := by
  rw [exponent] at h
  obtain ⟨c, s₁, hmark, h⟩ := bind_eq_some h
  obtain ⟨sign, s₂, hsign, h⟩ := bind_eq_some h
  obtain ⟨ds, s₃, hds, h⟩ := bind_eq_some h
  cases h
  obtain ⟨rfl, hletter⟩ := eq_cons_of_satisfy hmark
  obtain ⟨hne, hall⟩ := all_of_run1 hds
  obtain ⟨rfl, hsigns⟩ : s₁ = sign.toList ++ s₂ ∧ ∀ c ∈ sign, c = '+' ∨ c = '-' := by
    cases sign with
    | none => exact ⟨eq_of_maybe_none hsign, by rintro _ ⟨⟩⟩
    | some d =>
        obtain ⟨rfl, hd⟩ := eq_cons_of_satisfy (eq_of_maybe hsign)
        refine ⟨rfl, ?_⟩
        rintro _ ⟨⟩
        simpa using hd
  refine ⟨⟨c, sign, ds, by simpa using hletter, hsigns, hne, hall⟩, ?_, rfl⟩
  rw [append_of_run1 hds, Exponent.text, List.cons_append, List.append_assoc]

theorem takes_exponent : Takes exponent := by
  intro s e r h
  obtain ⟨x, rfl, -⟩ := exponent_sound h
  simp only [Exponent.text, List.length_append, List.length_cons]
  omega

theorem covers_fraction {fraction : List Char} (h : ∀ c ∈ fraction, isDigit c = true) :
    Covers isDigit (do char '.'; run isDigit) ('.' :: fraction) fraction := by
  intro u
  obtain ⟨ds, r, hr, hreach⟩ := Covers.run h u
  refine ⟨ds, r, ?_, hreach⟩
  rw [List.cons_append, bind_of_some (char_self _ _), hr]

theorem takes_fraction : Takes (do char '.'; run isDigit) :=
  (Takes.char '.').bind fun _ s ds r h => by
    rw [append_of_run h, List.length_append]
    exact Nat.le_add_left _ _

theorem covers_mantissa (m : Mantissa) : Covers isMantissa (wholeMantissa <|> pointMantissa) m.text
    (m.whole, m.fraction.getD []) := by
  obtain ⟨whole, fraction, hwhole, hfraction, hne⟩ := m
  have hmantissa (c : Char) (hc : isDigit c = true) : isMantissa c = true := by
    rw [isMantissa, hc, Bool.true_or]
  cases fraction with
  | none =>
      rw [Option.getD_none, List.append_nil] at hne
      show Covers isMantissa _ (whole ++ []) (whole, [])
      rw [List.append_nil]
      exact ((Covers.run1 hne hwhole).bind_maybe (g := fun ds more => (ds, more.getD []))
        takes_fraction (First.char '.').bind).orElse_left
  | some fraction =>
      cases whole with
      | nil =>
          have hpoint : Covers isDigit pointMantissa ('.' :: fraction) ([], fraction) := by
            intro u
            obtain ⟨ds, r, hr, hreach⟩ :=
              (Covers.run1 hne hfraction).bind_pure (g := fun ds => (([] : List Char), ds)) u
            refine ⟨ds, r, ?_, hreach⟩
            rw [pointMantissa, List.cons_append, bind_of_some (char_self _ _)]
            exact hr
          exact (hpoint.imp hmantissa).orElse_right fun _ => rfl
      | cons c cs =>
          have hbehind := (covers_fraction hfraction).maybe.bind_pure
            (g := fun more => (c :: cs, more.getD []))
          exact (((Covers.run1 (List.cons_ne_nil c cs) hwhole).bind rfl hbehind).imp
            hmantissa).orElse_left

theorem mantissa_sound {s r whole fraction : List Char}
    (h : (wholeMantissa <|> pointMantissa) s = some ((whole, fraction), r)) :
    ∃ m : Mantissa, s = m.text ++ r ∧ m.whole = whole ∧ m.fraction.getD [] = fraction := by
  rw [orElse_apply, Option.or_eq_some_iff] at h
  rcases h with h | ⟨-, h⟩
  · rw [wholeMantissa] at h
    obtain ⟨ds, s₁, hds, h⟩ := bind_eq_some h
    obtain ⟨more, s₂, hmore, h⟩ := bind_eq_some h
    cases h
    obtain ⟨hne, hall⟩ := all_of_run1 hds
    have hdigits (ds : List Char) : whole ++ ds ≠ [] := fun h => hne (List.append_eq_nil_iff.mp h).1
    cases more with
    | none =>
        refine ⟨⟨whole, none, hall, List.forall_mem_nil _, hdigits _⟩, ?_, rfl, rfl⟩
        rw [append_of_run1 hds, eq_of_maybe_none hmore]
        simp [Mantissa.text]
    | some fraction =>
        obtain ⟨_, s₃, hpoint, hrun⟩ := bind_eq_some (eq_of_maybe hmore)
        have hfraction : ∀ c ∈ fraction, isDigit c = true := all_of_run hrun
        refine ⟨⟨whole, some fraction, hall, hfraction, hdigits _⟩, ?_, rfl, rfl⟩
        rw [append_of_run1 hds, eq_cons_of_char hpoint, append_of_run hrun]
        simp [Mantissa.text]
  · rw [pointMantissa] at h
    obtain ⟨_, s₁, hpoint, h⟩ := bind_eq_some h
    obtain ⟨ds, s₂, hds, h⟩ := bind_eq_some h
    cases h
    obtain ⟨hne, hall⟩ := all_of_run1 hds
    refine ⟨⟨[], some fraction, List.forall_mem_nil _, hall, hne⟩, ?_, rfl, rfl⟩
    rw [eq_cons_of_char hpoint, append_of_run1 hds]
    simp [Mantissa.text]

theorem covers_decimal (g : Decimal) : Covers isLexical decimal g.text g.read := by
  obtain ⟨m, x⟩ := g
  have hmantissa := covers_mantissa m
  have hdigit (c : Char) (hc : isDigit c = true) : isLexical c = true :=
    isLexical_of_isNamePart (isNamePart_of_isDigit hc)
  cases x with
  | none =>
      have hdecimal := hmantissa.bind_maybe (q := exponent)
        (g := fun x e => valueOf x.1 x.2 (e.getD 0)) takes_exponent first_exponent
      show Covers isLexical decimal (m.text ++ []) (valueOf m.whole (m.fraction.getD []) 0)
      rw [List.append_nil]
      refine hdecimal.imp fun c hc => ?_
      simp only [isMantissa, Bool.or_eq_true, beq_iff_eq] at hc
      rcases hc with (hc | rfl) | rfl | rfl
      · exact hdigit c hc
      all_goals rfl
  | some x =>
      have hmark : isMantissa x.mark = false := by
        rcases x.isMark with h | h <;> rw [h] <;> rfl
      have hexponent := (covers_exponent x).maybe.bind_pure
        (g := fun e => valueOf m.whole (m.fraction.getD []) (e.getD 0))
      exact (hmantissa.bind (f := fun x => do
        let e ← maybe exponent; return valueOf x.1 x.2 (e.getD 0)) hmark hexponent).imp hdigit

theorem decimal_sound {s r : List Char} {x : Float} (h : decimal s = some (x, r)) :
    ∃ g : Decimal, s = g.text ++ r ∧ x = g.read := by
  rw [decimal] at h
  obtain ⟨⟨whole, fraction⟩, s₁, hmantissa, h⟩ := bind_eq_some h
  obtain ⟨e, s₂, he, h⟩ := bind_eq_some h
  cases h
  obtain ⟨m, rfl, rfl, rfl⟩ := mantissa_sound hmantissa
  cases e with
  | none =>
      refine ⟨⟨m, none⟩, ?_, rfl⟩
      rw [eq_of_maybe_none he, Decimal.text, Option.elim_none, List.append_nil]
  | some e =>
      obtain ⟨x, rfl, rfl⟩ := exponent_sound (eq_of_maybe he)
      exact ⟨⟨m, some x⟩, (List.append_assoc _ _ _).symm, rfl⟩

theorem Decimal.isDigit_or_mem (g : Decimal) :
    ∀ c ∈ g.text, isDigit c = true ∨ c ∈ ['.', 'e', 'E', '+', '-'] := by
  obtain ⟨⟨whole, fraction, hwhole, hfraction, -⟩, x⟩ := g
  intro c h
  simp only [Decimal.text, Mantissa.text, List.mem_append] at h
  rcases h with (h | h) | h
  · exact .inl (hwhole c h)
  · cases fraction with
    | none => cases h
    | some fraction =>
        rcases List.mem_cons.mp h with rfl | h
        · exact .inr (by decide)
        · exact .inl (hfraction c h)
  · cases x with
    | none => cases h
    | some x =>
        simp only [Option.elim_some, Exponent.text, List.mem_cons, List.mem_append,
          Option.mem_toList] at h
        rcases h with rfl | h | h
        · exact .inr (by rcases x.isMark with h | h <;> rw [h] <;> decide)
        · exact .inr (by rcases x.isSign c h with rfl | rfl <;> decide)
        · exact .inl (x.isDigits c h)

theorem Decimal.not_x (g : Decimal) : ∀ c ∈ g.text, c ≠ 'x' ∧ c ≠ 'X' := by
  intro c h
  rcases g.isDigit_or_mem c h with hc | hc
  · exact ⟨ne_of_isDigit hc rfl, ne_of_isDigit hc rfl⟩
  · exact ⟨by rintro rfl; revert hc; decide, by rintro rfl; revert hc; decide⟩

theorem decimal_length_le {g : Decimal} {h : Hexadecimal} {s : List Char} (hg : g.text <+: s)
    (hh : h.text <+: s) : g.text.length ≤ 1 := by
  obtain ⟨u, rfl⟩ := hg
  obtain ⟨v, hv⟩ := hh
  rcases htext : g.text with _ | ⟨c, _ | ⟨d, t⟩⟩
  · exact Nat.zero_le _
  · exact Nat.le_refl _
  · rw [htext] at hv
    have hd : h.mark = d := (List.cons.inj (List.cons.inj hv).2).1
    have hnot := g.not_x d (by simp [htext])
    rcases h.isMark with hmark | hmark
    · exact (hnot.1 (hd.symm.trans hmark)).elim
    · exact (hnot.2 (hd.symm.trans hmark)).elim

theorem hexadecimal_sound {s r : List Char} {x : Float} (hs : hexadecimal s = some (x, r)) :
    ∃ h : Hexadecimal, s = h.text ++ r ∧ numberOf 16 h.digits < 2 ^ 64 := by
  rw [hexadecimal] at hs
  obtain ⟨_, s₁, hzero, hletter⟩ := bind_eq_some hs
  obtain ⟨c, s₂, hmark, hdigits⟩ := bind_eq_some hletter
  obtain ⟨ds, s₃, hds, hvalue⟩ := bind_eq_some hdigits
  cases hx : hexValue? ds with
  | none =>
      rw [hx] at hvalue
      cases hvalue
  | some y =>
      rw [hx] at hvalue
      cases hvalue
      rw [hexValue?, Option.ite_none_right_eq_some] at hx
      obtain ⟨hne, hall⟩ := all_of_run1 hds
      obtain ⟨hrest, hc⟩ := eq_cons_of_satisfy hmark
      refine ⟨⟨c, ds, by simpa using hc, hne, hall⟩, ?_, hx.1⟩
      rw [eq_cons_of_char hzero, hrest, append_of_run1 hds]
      rfl

theorem hexadecimal_complete (h : Hexadecimal) {r : List Char} (hfits : numberOf 16 h.digits < 2 ^ 64)
    (hr : ∀ c v, r = c :: v → isHexDigit c = false) :
    hexadecimal (h.text ++ r) = some (ofNat (numberOf 16 h.digits), r) := by
  have hmark : satisfy (fun c => c == 'x' || c == 'X') (h.mark :: (h.digits ++ r)) =
      some (h.mark, h.digits ++ r) := if_pos (by simpa using h.isMark)
  have hvalue : hexValue? h.digits = some (ofNat (numberOf 16 h.digits)) := if_pos hfits
  rw [hexadecimal, Hexadecimal.text, List.cons_append, List.cons_append,
    bind_of_some (char_self _ _), bind_of_some hmark,
    bind_of_some (run1_append h.ne_nil h.isDigits hr), hvalue]
  rfl

def Form.read : Form → Float
  | .hexadecimal h => ofNat (numberOf 16 h.digits)
  | .decimal g => g.read

theorem isNamePart_mark (h : Hexadecimal) : isNamePart h.mark = true := by
  rcases h.isMark with h | h <;> rw [h] <;> rfl

theorem Decimal.text_ne_nil (g : Decimal) : g.text ≠ [] := by
  obtain ⟨⟨whole, fraction, -, -, hne⟩, x⟩ := g
  cases fraction with
  | none =>
      rw [Option.getD_none, List.append_nil] at hne
      simp [Decimal.text, Mantissa.text, hne]
  | some fraction => simp [Decimal.text, Mantissa.text]

theorem leads_hexadecimal {h : Hexadecimal} {r : List Char}
    (hends : ∀ c v, r = c :: v → isNamePart c = false) :
    (Form.hexadecimal h).Leads (h.text ++ r) r := by
  refine ⟨rfl, ?_, hends⟩
  rintro (h' | g) ⟨u, hu⟩
  · have hdigits : h'.digits ++ u = h.digits ++ r := (List.cons.inj (List.cons.inj hu).2).2
    have hlength := length_le_of_append hdigits
      (fun c hc => isNamePart_of_isHexDigit (h'.isDigits c hc)) hends
    exact Nat.add_le_add_right (Nat.add_le_add_right hlength 1) 1
  · have hlength := decimal_length_le ⟨u, hu⟩ (List.prefix_append h.text r)
    exact hlength.trans (Nat.le_add_left _ _)

theorem leads_decimal {g : Decimal} {r : List Char} {x : Float}
    (hs : decimal (g.text ++ r) = some (x, r))
    (hends : ∀ c v, r = c :: v → isNamePart c = false) : (Form.decimal g).Leads (g.text ++ r) r := by
  refine ⟨rfl, ?_, hends⟩
  rintro (h | g') ⟨u, hu⟩
  · -- the letter behind the zero would go on as a name
    have hlength := decimal_length_le (List.prefix_append g.text r) ⟨u, hu⟩
    have hne := g.text_ne_nil
    rcases htext : g.text with _ | ⟨c, _ | ⟨d, t⟩⟩
    · exact (hne htext).elim
    · rw [htext] at hu
      have hrest : r = h.mark :: (h.digits ++ u) := (List.cons.inj hu).2.symm
      cases (isNamePart_mark h).symm.trans (hends _ _ hrest)
    · rw [htext] at hlength
      cases Nat.not_succ_le_zero _ (Nat.le_of_succ_le_succ hlength)
  · obtain ⟨b, r', hr', hreach⟩ := covers_decimal g' u
    rw [show g'.text ++ u = g.text ++ r from hu, hs] at hr'
    cases hr'
    have hlength := congrArg List.length hu
    simp only [List.length_append] at hlength
    have hshort := hreach.short
    show g'.text.length ≤ g.text.length
    change g'.text.length + u.length = g.text.length + r.length at hlength
    omega

theorem leads_of_numeral {s r : List Char} {x : Float} (hs : numeral s = some (x, r)) :
    ∃ f : Form, f.Leads s r ∧ f.Fits := by
  rw [numeral] at hs
  obtain ⟨y, s₁, hvalue, hs⟩ := bind_eq_some hs
  obtain ⟨_, s₂, hnext, hs⟩ := bind_eq_some hs
  cases hs
  obtain ⟨rfl, hends⟩ := notNext_eq_some_iff.mp hnext
  rw [orElse_apply, Option.or_eq_some_iff] at hvalue
  rcases hvalue with hvalue | ⟨-, hvalue⟩
  · obtain ⟨h, rfl, hfits⟩ := hexadecimal_sound hvalue
    exact ⟨.hexadecimal h, leads_hexadecimal hends, hfits⟩
  · obtain ⟨g, rfl, -⟩ := decimal_sound hvalue
    exact ⟨.decimal g, leads_decimal hvalue hends, trivial⟩

theorem numeral_of_leads {f : Form} {s r : List Char} (hleads : f.Leads s r) (hfits : f.Fits) :
    numeral s = some (f.read, r) := by
  obtain ⟨rfl, hlongest, hends⟩ := hleads
  have hnext : notNext isNamePart r = some ((), r) := notNext_eq_some_iff.mpr ⟨rfl, hends⟩
  suffices hvalue : (hexadecimal <|> decimal) (f.text ++ r) = some (f.read, r) by
    rw [numeral, bind_of_some hvalue, bind_of_some hnext]
    rfl
  cases f with
  | hexadecimal h =>
      refine orElse_of_some (hexadecimal_complete h hfits fun c v hc => ?_)
      rw [Bool.eq_false_iff]
      intro hdigit
      cases (isNamePart_of_isHexDigit hdigit).symm.trans (hends c v hc)
  | decimal g =>
      -- a hexadecimal numeral would be longer, and a decimal one that takes more as well
      have hhexadecimal : hexadecimal (g.text ++ r) = none := by
        rw [Option.eq_none_iff_forall_ne_some]
        rintro ⟨x, r'⟩ hx
        obtain ⟨h, hsplit, -⟩ := hexadecimal_sound hx
        have hlength := hlongest (.hexadecimal h) ⟨r', hsplit.symm⟩
        have hshort := decimal_length_le (List.prefix_append g.text r) ⟨r', hsplit.symm⟩
        exact absurd (hlength.trans hshort) (by simp [Form.text, Hexadecimal.text])
      obtain ⟨x, r', hr', hreach⟩ := covers_decimal g r
      obtain ⟨g', hsplit, -⟩ := decimal_sound hr'
      have hlength := hlongest (.decimal g') ⟨r', hsplit.symm⟩
      have hsum := congrArg List.length hsplit
      rw [List.length_append, List.length_append] at hsum
      have hshort := hreach.short
      have hsame : r'.length = r.length := by
        change g'.text.length ≤ g.text.length at hlength
        omega
      rw [Form.text, orElse_of_none hhexadecimal, hr', hreach.same hsame,
        (List.append_inj' hsplit hsame.symm).2]
      rfl

section Digits

variable {c : Char} {ds : List Char}

theorem numberOf_concat (base : ℕ) (ds : List Char) (c : Char) :
    numberOf base (ds ++ [c]) = numberOf base ds * base + digitValue c := by
  rw [numberOf, numberOf, List.foldl_append]
  rfl

theorem digitValue_lt (h : isDigit c = true) : digitValue c < 10 := by
  rw [digitValue, if_pos h]
  have hle : c.toNat ≤ '9'.toNat := (of_decide_eq_true h).2
  have hnine : '9'.toNat = '0'.toNat + 9 := by decide
  omega

theorem numberOf_lt (h : ∀ c ∈ ds, isDigit c = true) : numberOf 10 ds < 10 ^ ds.length := by
  induction ds using List.reverseRecOn with
  | nil => exact Nat.one_pos
  | append_singleton ds c ih =>
      have hc := digitValue_lt (h c (by simp))
      have hds := ih fun d hd => h d (List.mem_append_left _ hd)
      rw [numberOf_concat, List.length_append, List.length_singleton, pow_succ]
      omega

/-- Exponents that are not read to their last digit are large, and read as large ones. -/
theorem exponentOf_cases (ds : List Char) :
    exponentOf ds = numberOf 10 ds ∨ 2 ^ 16 ≤ exponentOf ds ∧ 10 * 2 ^ 16 ≤ numberOf 10 ds := by
  induction ds using List.reverseRecOn with
  | nil => exact .inl rfl
  | append_singleton ds c ih =>
      have hread : exponentOf (ds ++ [c]) =
          if exponentOf ds < 2 ^ 16 then exponentOf ds * 10 + digitValue c else exponentOf ds := by
        rw [exponentOf, exponentOf, List.foldl_append]
        rfl
      rw [hread, numberOf_concat]
      split <;> omega

end Digits

theorem rounds_far {m k : ℕ} {e : ℤ} (hm : m < 10 ^ k) (he : k + e ≤ -400) :
    Rounds (m * 10 ^ e) 0 := by
  refine rounds_zero (by positivity) ?_
  have hm : (m : ℚ) ≤ 10 ^ (k : ℤ) := by
    rw [zpow_natCast]
    exact_mod_cast hm.le
  calc (m : ℚ) * 10 ^ e ≤ 10 ^ (k : ℤ) * 10 ^ e := by gcongr
    _ = 10 ^ ((k : ℤ) + e) := (zpow_add₀ (by norm_num) _ _).symm
    _ ≤ 2 ^ (3 * ((k : ℤ) + e)) := ten_zpow_le_two_zpow (by omega)
    _ ≤ 2 ^ (-1075 : ℤ) := zpow_le_zpow_right₀ one_le_two (by omega)

/-- Exponents beyond any double give the same double. -/
theorem rounds_ofDecimal_of_large {m k : ℕ} {e e' : ℤ} (hm : m < 10 ^ k)
    (h : 400 < e ∧ 400 < e' ∨ k + e ≤ -400 ∧ k + e' ≤ -400) : Rounds (m * 10 ^ e) (ofDecimal m e') := by
  have hread := rounds_ofDecimal m e'
  rcases h with ⟨he, he'⟩ | ⟨he, he'⟩
  · by_cases hzero : m = 0
    · rw [hzero, Nat.cast_zero, zero_mul] at hread ⊢
      exact hread
    · rw [hread.unique (rounds_huge hzero he')]
      exact rounds_huge hzero he
  · rw [hread.unique (rounds_far hm he')]
    exact rounds_far hm he

theorem rounds_decimal {g : Decimal} (h : (Form.decimal g).Clear) : Rounds g.value g.read := by
  obtain ⟨m, x⟩ := g
  simp only [Decimal.value, Decimal.read]
  cases x with
  | none => exact rounds_ofDecimal _ _
  | some x =>
      have hdigits : ∀ c ∈ m.digits, isDigit c = true := fun c hc =>
        (List.mem_append.mp hc).elim (m.isWhole c) (m.isFraction c)
      have hplaces : m.places ≤ m.digits.length := by
        rw [Mantissa.digits, List.length_append]
        exact Nat.le_add_left _ _
      rcases exponentOf_cases x.digits with hexact | ⟨hread, hvalue⟩
      · rw [Option.elim_some, Option.elim_some, Exponent.read, hexact]
        exact rounds_ofDecimal _ _
      · have hfew : m.digits.length ≤ 60000 :=
          h.resolve_left fun hsmall => (hsmall x rfl).not_ge hvalue
        refine rounds_ofDecimal_of_large (numberOf_lt hdigits) ?_
        rw [Option.elim_some, Option.elim_some, Exponent.read, Exponent.value, Exponent.signed,
          Exponent.signed]
        split
        · exact .inr (by omega)
        · exact .inl (by omega)

theorem rounds_read {f : Form} (h : f.Clear) : Rounds f.value f.read := by
  cases f with
  | hexadecimal f =>
      have hone := rounds_ofRatio (n := numberOf 16 f.digits) one_ne_zero
      rwa [Nat.cast_one, div_one] at hone
  | decimal g => exact rounds_decimal h

/-- What is read is the longest numeral in front of the text, rounded. -/
theorem numeral_longest (s r : List Char) :
    (∀ x, numeral s = some (x, r) →
      ∃ f : Form, f.Leads s r ∧ f.Fits ∧ (f.Clear → Rounds f.value x)) ∧
    ∀ f : Form, f.Leads s r → f.Fits →
      ∃ x, numeral s = some (x, r) ∧ (f.Clear → Rounds f.value x) := by
  refine ⟨fun x h => ?_, fun f hleads hfits => ?_⟩
  · obtain ⟨f, hleads, hfits⟩ := leads_of_numeral h
    cases h.symm.trans (numeral_of_leads hleads hfits)
    exact ⟨f, hleads, hfits, rounds_read⟩
  · exact ⟨f.read, numeral_of_leads hleads hfits, rounds_read⟩

/-- A numeral with a point and an exponent, in front of an operator. -/
theorem numeral_longest_point :
    ∃ x, numeral "1.5e3+2".toList = some (x, "+2".toList) ∧ Rounds 1500 x := by
  have hsplit : "1.5e3+2".toList = "1.5e3".toList ++ "+2".toList := rfl
  have hdigit {c : Char} (hc : isDigit c = true) : ∀ d ∈ [c], isDigit d = true :=
    List.forall_mem_singleton.mpr hc
  obtain ⟨g, htext, hvalue, hclear⟩ : ∃ g : Decimal, g.text = "1.5e3".toList ∧ g.value = 1500 ∧
      (Form.decimal g).Clear := by
    refine ⟨⟨⟨['1'], some ['5'], hdigit rfl, hdigit rfl, nofun⟩,
      some ⟨'e', none, ['3'], .inl rfl, nofun, nofun, hdigit rfl⟩⟩, rfl, ?_, .inr ?_⟩
    · show (15 : ℚ) * 10 ^ (2 : ℤ) = 1500
      norm_num
    · show 2 ≤ 60000
      decide
  have hread : numeral "1.5e3+2".toList = some (ofDecimal 15 2, "+2".toList) := rfl
  obtain ⟨f, hleads, -, -⟩ := (numeral_longest _ _).1 _ hread
  have hsame : f.text = (Form.decimal g).text :=
    (List.append_cancel_right (hleads.start.symm.trans hsplit)).trans htext.symm
  have hleads' : (Form.decimal g).Leads "1.5e3+2".toList "+2".toList :=
    ⟨by rw [hsplit, ← htext]; rfl, hsame ▸ hleads.longest, hleads.ends⟩
  obtain ⟨x, hx, hrounds⟩ := (numeral_longest _ _).2 _ hleads' trivial
  have hvalue' : (Form.decimal g).value = 1500 := hvalue
  exact ⟨x, hx, hvalue' ▸ hrounds hclear⟩

end SmallScript.Number.Numeral
