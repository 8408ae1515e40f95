import SmallScript.Proofs.Number.Whole
import Mathlib

namespace SmallScript.Number

open Double

/-- Where a double lies on the line, if it is a number. -/
def Double.Exact.place? : Exact → Option ℚ
  | .nan => none
  | .infinite neg => some ((if neg then -1 else 1) * 2 ^ (1024 : ℤ))
  | .finite neg mant exp => (Exact.finite neg mant exp).value?

def Double.place? (x : Float) : Option ℚ := (decode x).place?

/-- A number that is not negative is rounded to `x`. -/
structure Rounds (q : ℚ) (x : Float) : Prop where
  magnitude : x.toBits.toNat ≤ wordOfInfinity
  nearest : ∀ p, place? x = some p → ∀ y p', place? y = some p' → |q - p| ≤ |q - p'|
  even : ∀ p, place? x = some p → ∀ y p', place? y = some p' → p' ≠ p → |q - p'| = |q - p| →
    x.toBits.toNat % 2 = 0

/-- The place of the double with the word `w`. The line goes on behind infinity as before it. -/
def placeOf (w : ℕ) : ℚ :=
  (w - (w / 2 ^ 52 - 1) * 2 ^ 52 : ℕ) * 2 ^ (((w / 2 ^ 52 - 1 : ℕ) : ℤ) - 1074)

section Places

variable {w v : ℕ} {q : ℚ}

theorem two_zpow_pos (e : ℤ) : (0 : ℚ) < 2 ^ e := zpow_pos two_pos e

theorem placeOf_eq {k m : ℕ} (hm : m ≤ 2 ^ 53) (hk : k = 0 ∨ 2 ^ 52 ≤ m) :
    placeOf (k * 2 ^ 52 + m) = m * 2 ^ ((k : ℤ) - 1074) := by
  rw [placeOf]
  by_cases hfull : m = 2 ^ 53
  · subst hfull
    have hfield : (k * 2 ^ 52 + 2 ^ 53) / 2 ^ 52 - 1 = k + 1 := by omega
    have hmant : k * 2 ^ 52 + 2 ^ 53 - (k + 1) * 2 ^ 52 = 2 ^ 52 := by omega
    rw [hfield, hmant, show (((k + 1 : ℕ) : ℤ) - 1074) = (k - 1074) + 1 by push_cast; ring,
      zpow_add_one₀ two_ne_zero]
    push_cast
    ring
  · have hfield : (k * 2 ^ 52 + m) / 2 ^ 52 - 1 = k := by omega
    rw [hfield, Nat.add_sub_cancel_left]

theorem exists_significand (w : ℕ) :
    ∃ k m, w = k * 2 ^ 52 + m ∧ m < 2 ^ 53 ∧ (k = 0 ∨ 2 ^ 52 ≤ m) :=
  ⟨w / 2 ^ 52 - 1, w - (w / 2 ^ 52 - 1) * 2 ^ 52, by omega, by omega, by omega⟩

theorem placeOf_strictMono : StrictMono placeOf := by
  refine strictMono_nat_of_lt_succ fun w => ?_
  obtain ⟨k, m, rfl, hm, hk⟩ := exists_significand w
  have hnext : placeOf (k * 2 ^ 52 + (m + 1)) = (m + 1 : ℕ) * 2 ^ ((k : ℤ) - 1074) :=
    placeOf_eq hm (by omega)
  rw [placeOf_eq hm.le hk, Nat.add_assoc, hnext]
  exact mul_lt_mul_of_pos_right (by exact_mod_cast Nat.lt_succ_self m) (two_zpow_pos _)

theorem placeOf_zero : placeOf 0 = 0 := by simp [placeOf]

theorem placeOf_nonneg (w : ℕ) : 0 ≤ placeOf w :=
  placeOf_zero ▸ placeOf_strictMono.monotone (Nat.zero_le w)

theorem placeOf_infinity : placeOf wordOfInfinity = 2 ^ (1024 : ℤ) := by
  have h : wordOfInfinity = 2046 * 2 ^ 52 + 2 ^ 52 := by decide
  rw [h, placeOf_eq (by decide) (.inr le_rfl), Nat.cast_pow, ← zpow_natCast, Nat.cast_two,
    ← zpow_add₀ two_ne_zero]
  congr 1

theorem place?_decodeWord (w : ℕ) : (decodeWord w).place? =
    if w % 2 ^ 63 ≤ wordOfInfinity then
      some ((if 2 ^ 63 ≤ w then -1 else 1) * placeOf (w % 2 ^ 63))
    else none := by
  have hsplit : w % 2 ^ 63 = w / 2 ^ 52 % 2048 * 2 ^ 52 + w % 2 ^ 52 := by omega
  have hfield : w / 2 ^ 52 % 2048 < 2048 := Nat.mod_lt _ (by decide)
  have hfraction : w % 2 ^ 52 < 2 ^ 52 := Nat.mod_lt _ (by decide)
  rw [hsplit, decodeWord]
  simp only [Nat.pow_eq]
  generalize w / 2 ^ 52 % 2048 = e at *
  generalize w % 2 ^ 52 = f at *
  by_cases hlast : e = 2047
  · subst hlast
    rw [if_pos rfl]
    by_cases hf : f = 0
    · subst hf
      rw [if_pos rfl, Nat.add_zero, ← wordOfInfinity, if_pos le_rfl, placeOf_infinity]
      simp only [Exact.place?, decide_eq_true_eq]
    · rw [if_neg hf, if_neg (by rw [wordOfInfinity]; omega)]
      rfl
  rw [if_neg hlast, if_pos (show _ ≤ wordOfInfinity by rw [wordOfInfinity]; omega)]
  by_cases hzero : e = 0
  · subst hzero
    rw [if_pos rfl, placeOf_eq (k := 0) (by omega) (.inl rfl)]
    simp only [Exact.place?, Exact.value?, decide_eq_true_eq, minExp, mul_assoc]
    rfl
  · have hhidden : e * 2 ^ 52 + f = (e - 1) * 2 ^ 52 + (2 ^ 52 + f) := by omega
    have hexp : ((e - 1 : ℕ) : ℤ) - 1074 = (e : ℤ) - 1075 := by omega
    rw [if_neg hzero, hhidden, placeOf_eq (by omega) (.inr (by omega)), hexp]
    simp only [Exact.place?, Exact.value?, decide_eq_true_eq, mul_assoc]

theorem place?_of_magnitude {x : Float} (h : x.toBits.toNat ≤ wordOfInfinity) :
    place? x = some (placeOf x.toBits.toNat) := by
  have hlt : x.toBits.toNat < 2 ^ 63 := Nat.lt_of_le_of_lt h (by decide)
  rw [place?, decode, place?_decodeWord, Nat.mod_eq_of_lt hlt, if_pos h,
    if_neg (Nat.not_le_of_lt hlt), one_mul]

theorem eq_of_place? {y : Float} {p : ℚ} (h : place? y = some p) :
    ∃ u ≤ wordOfInfinity, p = placeOf u ∨ p = -placeOf u := by
  rw [place?, decode, place?_decodeWord, Option.ite_none_right_eq_some] at h
  obtain ⟨hu, heq⟩ := h
  cases heq
  refine ⟨_, hu, ?_⟩
  split
  · exact .inr (neg_one_mul _)
  · exact .inl (one_mul _)

/-- Of all words, also of those behind infinity, `w` is at the place to which `q` is rounded. -/
def NearestWord (q : ℚ) (w : ℕ) : Prop :=
  ∀ u, |q - placeOf w| ≤ |q - placeOf u| ∧
    (u ≠ w → |q - placeOf u| = |q - placeOf w| → w % 2 = 0)

/-- A number between two places is rounded to one of them. -/
theorem nearestWord_of_between (hlow : placeOf v ≤ q) (hhigh : q ≤ placeOf (v + 1))
    (hw : w = v ∧ q - placeOf v ≤ placeOf (v + 1) - q ∨
      w = v + 1 ∧ placeOf (v + 1) - q ≤ q - placeOf v)
    (heven : q - placeOf v = placeOf (v + 1) - q → w % 2 = 0) : NearestWord q w := by
  have hlowAbs : |q - placeOf v| = q - placeOf v := abs_of_nonneg (sub_nonneg.mpr hlow)
  have hhighAbs : |q - placeOf (v + 1)| = placeOf (v + 1) - q := by
    rw [abs_of_nonpos (sub_nonpos.mpr hhigh), neg_sub]
  have hself : |q - placeOf w| ≤ q - placeOf v ∧ |q - placeOf w| ≤ placeOf (v + 1) - q := by
    rcases hw with ⟨rfl, hw⟩ | ⟨rfl, hw⟩
    · exact ⟨hlowAbs.le, hlowAbs.trans_le hw⟩
    · exact ⟨hhighAbs.trans_le hw, hhighAbs.le⟩
  intro u
  rcases Nat.lt_or_ge v u with hu | hu
  · have hplace : placeOf (v + 1) ≤ placeOf u := placeOf_strictMono.monotone hu
    have habs : |q - placeOf u| = placeOf u - q := by rw [abs_of_nonpos (by linarith), neg_sub]
    rw [habs]
    refine ⟨by linarith, fun hne htie => heven ?_⟩
    have hsame : v + 1 = u := placeOf_strictMono.injective (by linarith)
    rcases hw with ⟨rfl, hw⟩ | ⟨rfl, -⟩
    · subst hsame
      linarith
    · exact (hne hsame.symm).elim
  · have hplace : placeOf u ≤ placeOf v := placeOf_strictMono.monotone hu
    have habs : |q - placeOf u| = q - placeOf u := abs_of_nonneg (by linarith)
    rw [habs]
    refine ⟨by linarith, fun hne htie => heven ?_⟩
    have hsame : u = v := placeOf_strictMono.injective (by linarith)
    rcases hw with ⟨rfl, -⟩ | ⟨rfl, hw⟩
    · exact (hne hsame).elim
    · subst hsame
      linarith

/-- The doubles on the other side of zero do not matter. -/
theorem rounds_ofBits (hw : w ≤ wordOfInfinity) (hq : 0 ≤ q)
    (h : ∀ u ≤ wordOfInfinity, |q - placeOf w| ≤ |q - placeOf u| ∧
      (u ≠ w → |q - placeOf u| = |q - placeOf w| → w % 2 = 0)) :
    Rounds q (Float.ofBits (UInt64.ofNat w)) := by
  have hbits : (Float.ofBits (UInt64.ofNat w)).toBits.toNat = w := by
    rw [toBits_ofBits hw]
    exact toNat_toBitVec hw
  have hplace {p : ℚ} (hp : place? (Float.ofBits (UInt64.ofNat w)) = some p) : p = placeOf w := by
    rw [place?_of_magnitude (hbits.trans_le hw), hbits] at hp
    exact (Option.some.inj hp).symm
  have hzero : |q - placeOf w| ≤ q := by
    have hzero := (h 0 (Nat.zero_le _)).1
    rwa [placeOf_zero, sub_zero, abs_of_nonneg hq] at hzero
  have hother (u : ℕ) : |q - placeOf u| ≤ |q - -placeOf u| ∧ |q - -placeOf u| = q + placeOf u := by
    have hu := placeOf_nonneg u
    have habs : |q - -placeOf u| = q + placeOf u := by
      rw [sub_neg_eq_add, abs_of_nonneg (add_nonneg hq hu)]
    exact ⟨by rw [habs, abs_le]; constructor <;> linarith, habs⟩
  refine ⟨hbits.trans_le hw, fun p hp y p' hy => ?_, fun p hp y p' hy hne htie => ?_⟩ <;>
    rw [hplace hp] at * <;> obtain ⟨u, hu, rfl | rfl⟩ := eq_of_place? hy
  · exact (h u hu).1
  · exact (h u hu).1.trans (hother u).1
  · rw [hbits]
    exact (h u hu).2 (fun hsame => hne (congrArg placeOf hsame)) htie
  · rw [hbits]
    refine (h u hu).2 (fun hsame => hne ?_) (le_antisymm ((hother u).1.trans htie.le) (h u hu).1)
    subst hsame
    have hpositive := placeOf_nonneg u
    rw [(hother u).2] at htie
    linarith

theorem NearestWord.infinity_le (h : NearestWord q w) (hw : wordOfInfinity < w) :
    placeOf wordOfInfinity ≤ q := by
  by_contra! hlt
  have hplace := placeOf_strictMono hw
  have hnear := (h wordOfInfinity).1
  rw [abs_of_nonpos (by linarith), abs_of_nonpos (by linarith)] at hnear
  linarith

theorem rounds_infinity (h : placeOf wordOfInfinity ≤ q) : Rounds q infinity := by
  show Rounds q (Float.ofBits (UInt64.ofNat wordOfInfinity))
  refine rounds_ofBits le_rfl ((placeOf_nonneg _).trans h) fun u hu => ?_
  have hplace := placeOf_strictMono.monotone hu
  have habs : |q - placeOf u| = q - placeOf u := abs_of_nonneg (by linarith)
  rw [habs, abs_of_nonneg (by linarith)]
  refine ⟨by linarith, fun hne htie => (hne ?_).elim⟩
  exact placeOf_strictMono.injective (by linarith)

theorem NearestWord.rounds (h : NearestWord q w) (hq : 0 ≤ q) :
    Rounds q (Float.ofBits (UInt64.ofNat (min w wordOfInfinity))) := by
  rcases Nat.lt_or_ge wordOfInfinity w with hw | hw
  · rw [Nat.min_eq_right hw.le]
    exact rounds_infinity (h.infinity_le hw)
  · rw [Nat.min_eq_left hw]
    exact rounds_ofBits hw hq fun u _ => h u

/-- Between two places with even words, as far from `q`, there is one that is nearer. -/
theorem Rounds.not_lt {x y : Float} (hx : Rounds q x) (hy : Rounds q y) :
    ¬x.toBits.toNat < y.toBits.toNat := by
  intro hlt
  have hplaceX := place?_of_magnitude hx.magnitude
  have hplaceY := place?_of_magnitude hy.magnitude
  have hplaceLt := placeOf_strictMono hlt
  have htie := le_antisymm (hx.nearest _ hplaceX _ _ hplaceY) (hy.nearest _ hplaceY _ _ hplaceX)
  have hevenX := hx.even _ hplaceX _ _ hplaceY hplaceLt.ne' htie.symm
  have hevenY := hy.even _ hplaceY _ _ hplaceX hplaceLt.ne htie
  have hbetween : x.toBits.toNat + 1 < y.toBits.toNat := by omega
  have hle : x.toBits.toNat + 1 ≤ wordOfInfinity := hbetween.le.trans hy.magnitude
  have hbits : (Float.ofBits (UInt64.ofNat (x.toBits.toNat + 1))).toBits.toNat =
      x.toBits.toNat + 1 := by
    rw [toBits_ofBits hle]
    exact toNat_toBitVec hle
  have hplace := place?_of_magnitude (hbits.trans_le hle)
  rw [hbits] at hplace
  have hnear := hx.nearest _ hplaceX _ _ hplace
  have hlow := placeOf_strictMono (Nat.lt_succ_self x.toBits.toNat)
  have hhigh := placeOf_strictMono hbetween
  rcases abs_cases (q - placeOf x.toBits.toNat) with h | h <;>
    rcases abs_cases (q - placeOf y.toBits.toNat) with h' | h' <;>
    rcases abs_cases (q - placeOf (x.toBits.toNat + 1)) with h'' | h'' <;> linarith

theorem Rounds.unique {x y : Float} (hx : Rounds q x) (hy : Rounds q y) : x = y := by
  have hsame : x.toBits.toNat = y.toBits.toNat :=
    Nat.le_antisymm (Nat.not_lt.mp (hy.not_lt hx)) (Nat.not_lt.mp (hx.not_lt hy))
  rw [← Float.ofBits_toBits x, UInt64.toNat_inj.mp hsame, Float.ofBits_toBits]

end Places

section Quotients

variable {n d : ℕ}

theorem scaled_div (e : ℤ) :
    ((n * twoPow (-e) : ℕ) : ℚ) / (d * twoPow e : ℕ) = n / d / 2 ^ e := by
  have he : (twoPow e : ℚ) ≠ 0 := by exact_mod_cast (twoPow_pos e).ne'
  have he' : (twoPow (-e) : ℚ) ≠ 0 := by exact_mod_cast (twoPow_pos (-e)).ne'
  rw [← twoPow_div e, Nat.cast_mul, Nat.cast_mul]
  field_simp

theorem scaled_lt_iff (hd : 0 < d) (e : ℤ) (a : ℕ) :
    n * twoPow (-e) < a * (d * twoPow e) ↔ (n : ℚ) / d < a * 2 ^ e := by
  have hpos : (0 : ℚ) < (d * twoPow e : ℕ) := by exact_mod_cast Nat.mul_pos hd (twoPow_pos e)
  rw [← div_lt_iff₀ (two_zpow_pos e), ← scaled_div, div_lt_iff₀ hpos]
  exact_mod_cast Iff.rfl

theorem log2_bounds (hn : n ≠ 0) :
    (2 : ℚ) ^ (n.log2 : ℤ) ≤ n ∧ (n : ℚ) < 2 ^ ((n.log2 : ℤ) + 1) := by
  constructor
  · rw [zpow_natCast]
    exact_mod_cast Nat.log2_self_le hn
  · rw [← Nat.cast_succ, zpow_natCast]
    exact_mod_cast Nat.lt_log2_self

/-- The leading bits of the two numbers tell the scale up to one. -/
theorem scale_bounds (hn : n ≠ 0) (hd : d ≠ 0) {e : ℤ} (he : e = (n.log2 : ℤ) - d.log2 - 53) :
    2 ^ 52 * 2 ^ e ≤ (n : ℚ) / d ∧ (n : ℚ) / d < 2 ^ 53 * 2 ^ (e + 1) := by
  obtain ⟨hnLow, hnHigh⟩ := log2_bounds hn
  obtain ⟨hdLow, hdHigh⟩ := log2_bounds hd
  have hpos : (0 : ℚ) < d := by exact_mod_cast Nat.pos_of_ne_zero hd
  have hsplit (i : ℕ) (j : ℤ) : (2 : ℚ) ^ i * 2 ^ j = 2 ^ ((i : ℤ) + j) := by
    rw [zpow_add₀ two_ne_zero, zpow_natCast]
  rw [le_div_iff₀ hpos, div_lt_iff₀ hpos, hsplit, hsplit]
  constructor
  · calc (2 : ℚ) ^ (((52 : ℕ) : ℤ) + e) * d
        ≤ 2 ^ (((52 : ℕ) : ℤ) + e) * 2 ^ ((d.log2 : ℤ) + 1) := by gcongr
      _ = 2 ^ (n.log2 : ℤ) := by rw [← zpow_add₀ two_ne_zero]; congr 1; omega
      _ ≤ n := hnLow
  · calc (n : ℚ) < 2 ^ ((n.log2 : ℤ) + 1) := hnHigh
      _ = 2 ^ (((53 : ℕ) : ℤ) + (e + 1)) * 2 ^ (d.log2 : ℤ) := by
        rw [← zpow_add₀ two_ne_zero]; congr 1; omega
      _ ≤ 2 ^ (((53 : ℕ) : ℤ) + (e + 1)) * d := by gcongr

/-- At its scale a quotient has 53 bits, or fewer if no exponent is smaller. -/
theorem scaleOf_spec (hn : n ≠ 0) (hd : d ≠ 0) :
    minExp ≤ scaleOf n d ∧ (n : ℚ) / d < 2 ^ 53 * 2 ^ scaleOf n d ∧
      (scaleOf n d = minExp ∨ 2 ^ 52 * 2 ^ scaleOf n d ≤ (n : ℚ) / d) := by
  obtain ⟨e, he⟩ : ∃ e : ℤ, e = (n.log2 : ℤ) - d.log2 - 53 := ⟨_, rfl⟩
  obtain ⟨hlow, hhigh⟩ := scale_bounds hn hd he
  obtain ⟨e', he', hlow', hhigh'⟩ : ∃ e', scaleOf n d = max e' minExp ∧
      2 ^ 52 * 2 ^ e' ≤ (n : ℚ) / d ∧ (n : ℚ) / d < 2 ^ 53 * 2 ^ e' := by
    rw [scaleOf, ← he]
    have hiff := scaled_lt_iff (n := n) (Nat.pos_of_ne_zero hd) e (Nat.pow 2 53)
    have hcast : ((Nat.pow 2 53 : ℕ) : ℚ) = 2 ^ 53 := Nat.cast_pow 2 53
    rw [hcast] at hiff
    split
    · exact ⟨e, rfl, hlow, hiff.mp ‹_›⟩
    · refine ⟨e + 1, rfl, ?_, hhigh⟩
      have hge := not_lt.mp fun h => ‹¬_› (hiff.mpr h)
      rw [zpow_add_one₀ two_ne_zero]
      linarith
  rw [he']
  refine ⟨le_max_right _ _, hhigh'.trans_le ?_, ?_⟩
  · have hmono : (2 : ℚ) ^ e' ≤ 2 ^ max e' minExp :=
      zpow_le_zpow_right₀ one_le_two (le_max_left _ _)
    linarith
  · rcases le_total e' minExp with hle | hle
    · exact .inl (max_eq_right hle)
    · exact .inr (by rwa [max_eq_left hle])

theorem nearestWord_of_floor {k f m : ℕ} {q r : ℚ} (hf : f < 2 ^ 53) (hk : k = 0 ∨ 2 ^ 52 ≤ f)
    (hr : 0 ≤ r) (hr' : r < 1) (hq : q = (f + r) * 2 ^ ((k : ℤ) - 1074))
    (hm : m = f ∧ r ≤ 1 / 2 ∨ m = f + 1 ∧ 1 / 2 ≤ r) (heven : r = 1 / 2 → m % 2 = 0) :
    NearestWord q (k * 2 ^ 52 + m) := by
  have hunit := two_zpow_pos ((k : ℤ) - 1074)
  have hlow : placeOf (k * 2 ^ 52 + f) = f * 2 ^ ((k : ℤ) - 1074) := placeOf_eq hf.le hk
  have hhigh : placeOf (k * 2 ^ 52 + (f + 1)) = (f + 1 : ℕ) * 2 ^ ((k : ℤ) - 1074) :=
    placeOf_eq hf (by omega)
  have hbelow : q - placeOf (k * 2 ^ 52 + f) = r * 2 ^ ((k : ℤ) - 1074) := by
    rw [hq, hlow]
    ring
  have habove : placeOf (k * 2 ^ 52 + f + 1) - q = (1 - r) * 2 ^ ((k : ℤ) - 1074) := by
    rw [hq, Nat.add_assoc, hhigh]
    push_cast
    ring
  refine nearestWord_of_between (v := k * 2 ^ 52 + f) ?_ ?_ ?_ ?_
  · rw [← sub_nonneg, hbelow]
    exact mul_nonneg hr hunit.le
  · rw [← sub_nonneg, habove]
    exact mul_nonneg (by linarith) hunit.le
  · rw [hbelow, habove, mul_le_mul_iff_left₀ hunit, mul_le_mul_iff_left₀ hunit]
    refine hm.imp (fun h => ⟨by rw [h.1], by linarith⟩) fun h => ⟨?_, by linarith⟩
    rw [h.1, Nat.add_assoc]
  · rw [hbelow, habove, mul_left_inj' hunit.ne']
    intro h
    have hm := heven (by linarith)
    omega

/-- A quotient of naturals is its whole part and what remains, by which it is rounded. -/
theorem roundDiv_spec {a b : ℕ} (hb : 0 < b) : ∃ r : ℚ, 0 ≤ r ∧ r < 1 ∧
    (a : ℚ) / b = (a / b : ℕ) + r ∧
    (roundDiv a b = a / b ∧ r ≤ 1 / 2 ∨ roundDiv a b = a / b + 1 ∧ 1 / 2 ≤ r) ∧
    (r = 1 / 2 → roundDiv a b % 2 = 0) := by
  have hpos : (0 : ℚ) < b := by exact_mod_cast hb
  refine ⟨(a % b : ℕ) / b, by positivity, ?_, ?_, ?_, fun htie => roundDiv_even_of_tie ?_⟩
  · rw [div_lt_one hpos]
    exact_mod_cast Nat.mod_lt a hb
  · rw [div_eq_iff hpos.ne', add_mul, div_mul_cancel₀ _ hpos.ne', mul_comm]
    exact_mod_cast (Nat.div_add_mod a b).symm
  · rw [div_le_div_iff₀ hpos two_pos, div_le_div_iff₀ two_pos hpos]
    refine (roundDiv_cases a b).imp (And.imp_right fun h => ?_) (And.imp_right fun h => ?_) <;>
      rw [one_mul, mul_comm] <;> exact_mod_cast h
  · rw [div_eq_div_iff hpos.ne' two_ne_zero, one_mul, mul_comm] at htie
    exact_mod_cast htie

/-- A quotient is rounded to the double of its word. -/
theorem nearestWord_ofRatio (hn : n ≠ 0) (hd : d ≠ 0) :
    NearestWord (n / d) ((scaleOf n d - minExp).toNat * 2 ^ 52 +
      roundDiv (n * twoPow (-scaleOf n d)) (d * twoPow (scaleOf n d))) := by
  obtain ⟨hmin, hlt, hge⟩ := scaleOf_spec hn hd
  have hpos := Nat.pos_of_ne_zero hd
  generalize scaleOf n d = e at *
  have hfit : n * twoPow (-e) < 2 ^ 53 * (d * twoPow e) :=
    (scaled_lt_iff hpos e _).mpr (by exact_mod_cast hlt)
  have hfull : e = minExp ∨ 2 ^ 52 * (d * twoPow e) ≤ n * twoPow (-e) := by
    refine hge.imp_right fun h => Nat.not_lt.mp fun hless => ?_
    have hless := (scaled_lt_iff hpos e _).mp hless
    push_cast at hless
    exact hless.not_ge h
  have hden : 0 < d * twoPow e := Nat.mul_pos hpos (twoPow_pos e)
  have hexp : ((e - minExp).toNat : ℤ) - 1074 = e := by
    rw [minExp] at hmin ⊢
    omega
  obtain ⟨r, hr, hr', hvalue, hround, heven⟩ := roundDiv_spec (a := n * twoPow (-e)) hden
  refine nearestWord_of_floor (Nat.div_lt_of_lt_mul ?_) ?_ hr hr' ?_ hround heven
  · rwa [Nat.mul_comm (d * twoPow e)]
  · refine hfull.imp (fun h => ?_) (Nat.le_div_iff_mul_le hden).mpr
    rw [h, sub_self]
    rfl
  · rw [hexp, ← hvalue, scaled_div, div_mul_cancel₀ _ (two_zpow_pos e).ne']

theorem rounds_zero {q : ℚ} (hq : 0 ≤ q) (h : q ≤ 2 ^ (-1075 : ℤ)) : Rounds q 0 := by
  have hunit := two_zpow_pos (-1074)
  have hhalf : q ≤ 1 / 2 * 2 ^ (-1074 : ℤ) := by
    rwa [one_div, ← zpow_neg_one, ← zpow_add₀ two_ne_zero]
  have hword : NearestWord q (0 * 2 ^ 52 + 0) := by
    refine nearestWord_of_floor (f := 0) (r := q / 2 ^ (-1074 : ℤ)) (by decide) (.inl rfl)
      (div_nonneg hq hunit.le) ?_ ?_ (.inl ⟨rfl, ?_⟩) fun _ => rfl
    · rw [div_lt_one hunit]
      linarith
    · rw [Nat.cast_zero, zero_add, Nat.cast_zero, zero_sub, div_mul_cancel₀ _ hunit.ne']
    · rwa [div_le_iff₀ hunit]
  have hbits : (0 : Float).toBits = 0 := by decide
  have hzero := hword.rounds hq
  rwa [show UInt64.ofNat (min (0 * 2 ^ 52 + 0) wordOfInfinity) = 0 by decide, ← hbits,
    Float.ofBits_toBits] at hzero

theorem rounds_ofRatio (hd : d ≠ 0) : Rounds (n / d) (ofRatio false n d) := by
  rw [ofRatio, if_neg Bool.false_ne_true, Nat.zero_add, wordOfRatio]
  by_cases hn : n = 0
  · have hbits : (0 : Float).toBits = UInt64.ofNat 0 := by decide
    rw [if_pos hn, ← hbits, Float.ofBits_toBits, hn, Nat.cast_zero, zero_div]
    exact rounds_zero le_rfl (two_zpow_pos _).le
  · rw [if_neg hn]
    exact (nearestWord_ofRatio hn hd).rounds (by positivity)

end Quotients

section Decimals

variable {m : ℕ} {e : ℤ}

theorem two_zpow_le_ten_zpow (he : 0 ≤ e) : (2 : ℚ) ^ (3 * e) ≤ 10 ^ e := by
  rw [zpow_mul]
  exact zpow_le_zpow_left₀ he (by norm_num) (by norm_num)

theorem ten_zpow_le_two_zpow (he : e ≤ 0) : (10 : ℚ) ^ e ≤ 2 ^ (3 * e) := by
  have h := two_zpow_le_ten_zpow (e := -e) (by omega)
  rw [mul_neg, zpow_neg, zpow_neg] at h
  exact (inv_le_inv₀ (two_zpow_pos _) (by positivity)).mp h

theorem rounds_huge (hm : m ≠ 0) (he : 400 < e) : Rounds (m * 10 ^ e) infinity := by
  refine rounds_infinity ?_
  have hone : (1 : ℚ) ≤ m := by exact_mod_cast Nat.one_le_iff_ne_zero.mpr hm
  calc placeOf wordOfInfinity = 2 ^ (1024 : ℤ) := placeOf_infinity
    _ ≤ 2 ^ (3 * e) := zpow_le_zpow_right₀ one_le_two (by omega)
    _ ≤ 10 ^ e := two_zpow_le_ten_zpow (by omega)
    _ ≤ m * 10 ^ e := le_mul_of_one_le_left (by positivity) hone

theorem rounds_tiny (h : m.log2 + 3 * e < -1100) : Rounds (m * 10 ^ e) 0 := by
  refine rounds_zero (by positivity) ?_
  have hm : (m : ℚ) ≤ 2 ^ ((m.log2 : ℤ) + 1) := by
    rw [← Nat.cast_succ, zpow_natCast]
    exact_mod_cast Nat.lt_log2_self.le
  calc (m : ℚ) * 10 ^ e ≤ 2 ^ ((m.log2 : ℤ) + 1) * 2 ^ (3 * e) :=
        mul_le_mul hm (ten_zpow_le_two_zpow (by omega)) (by positivity) (by positivity)
    _ = 2 ^ ((m.log2 : ℤ) + 1 + 3 * e) := (zpow_add₀ two_ne_zero _ _).symm
    _ ≤ 2 ^ (-1075 : ℤ) := zpow_le_zpow_right₀ one_le_two (by omega)

theorem rounds_ofDecimal (m : ℕ) (e : ℤ) : Rounds (m * 10 ^ e) (ofDecimal m e) := by
  rw [ofDecimal]
  split_ifs with hm hhuge htiny
  · rw [hm, Nat.cast_zero, zero_mul]
    exact rounds_zero le_rfl (two_zpow_pos _).le
  · exact rounds_huge hm hhuge
  · exact rounds_tiny htiny
  · have hquotient : (m : ℚ) * 10 ^ e =
        (m * Nat.pow 10 e.toNat : ℕ) / (Nat.pow 10 (-e).toNat : ℕ) := by
      have hcast (i : ℕ) : ((Nat.pow 10 i : ℕ) : ℚ) = 10 ^ (i : ℤ) := by
        rw [zpow_natCast]
        exact Nat.cast_pow 10 i
      rw [Nat.cast_mul, hcast, hcast, mul_div_assoc, ← zpow_sub₀ (by norm_num)]
      congr 2
      omega
    rw [hquotient]
    exact rounds_ofRatio (Nat.pow_pos (by decide)).ne'

end Decimals

end SmallScript.Number
