import SmallScript.Number.Word
import SmallScript.Proofs.Number.Exact
import Mathlib

namespace SmallScript.Number

open Double

/-- The whole part of a number, rounded toward zero. -/
def towardZero (q : ℚ) : ℤ := if 0 ≤ q then ⌊q⌋ else ⌈q⌉

section Parts

theorem towardZero_neg (q : ℚ) : towardZero (-q) = -towardZero q := by
  rcases lt_trichotomy q 0 with h | rfl | h
  · rw [towardZero, towardZero, if_pos (neg_nonneg.mpr h.le), if_neg h.not_ge, Int.floor_neg]
  · simp [towardZero]
  · rw [towardZero, towardZero, if_neg (by linarith), if_pos h.le, Int.ceil_neg]

theorem towardZero_quotient (neg : Bool) (n d : ℕ) :
    towardZero ((if neg then -1 else 1) * (n / d)) = (if neg then -1 else 1) * (n / d : ℕ) := by
  have hfloor : towardZero (n / d) = (n / d : ℕ) := by
    rw [towardZero, if_pos (by positivity)]
    exact_mod_cast Rat.floor_natCast_div_natCast n d
  cases neg with
  | false => rw [if_neg Bool.false_ne_true, if_neg Bool.false_ne_true, one_mul, one_mul, hfloor]
  | true => rw [if_pos rfl, if_pos rfl, neg_one_mul, neg_one_mul, towardZero_neg, hfloor]

theorem towardZero_intCast (i : ℤ) : towardZero i = i := by
  rw [towardZero, Int.floor_intCast, Int.ceil_intCast, ite_self]

theorem twoPow_of_nonpos {e : ℤ} (he : e ≤ 0) : twoPow e = 1 := by
  rw [twoPow, Int.toNat_of_nonpos he]

end Parts

section Steps

variable {x y : Float} {q : ℚ} {i : ℤ} {n : ℕ}

theorem value?_ofScaled_zero (hx : value? x = some q) (hq : |q| = n) (neg : Bool) :
    value? (ofScaled neg n 0) = some ((if neg then -1 else 1) * (n : ℚ)) := by
  have h := value?_ofRatio one_ne_zero hx (n := n) (by rw [hq, Nat.cast_one, div_one]) neg
  rw [Nat.cast_one, div_one] at h
  rwa [ofScaled, neg_zero, twoPow_of_nonpos le_rfl, Nat.mul_one]

theorem value?_truncate (h : value? x = some q) : value? (truncate x) = some (towardZero q : ℚ) := by
  cases hx : decode x with
  | nan | infinite =>
      rw [value?, hx] at h
      cases h
  | finite neg m e =>
      obtain ⟨hm, -, -⟩ := significand_bounds hx
      have hq := h
      rw [value?, hx, value?_finite, Option.some.injEq] at hq
      have hcast : (towardZero q : ℚ) =
          (if neg then -1 else 1) * ((m * twoPow e / twoPow (-e) : ℕ) : ℚ) := by
        rw [← hq, towardZero_quotient, Int.cast_mul, Int.cast_natCast, apply_ite Int.cast,
          Int.cast_neg, Int.cast_one]
      rw [truncate, hx, hcast]
      -- Without a fraction the double is its own whole part; otherwise that is below `2 ^ 53`.
      rcases le_or_gt 0 e with he | he
      · refine value?_ofScaled_zero h ?_ neg
        rw [← hq, twoPow_of_nonpos (neg_nonpos.mpr he), Nat.div_one, Nat.cast_one, div_one]
        cases neg <;> simp
      · refine value?_ofScaled_zero (value?_ofNat ?_) (Nat.abs_cast _) neg
        rw [twoPow_of_nonpos he.le, Nat.mul_one]
        exact (Nat.div_le_self _ _).trans_lt hm

section Integers

variable {neg : Bool} {m : ℕ} {e low : ℤ}

theorem natAbs_eq (hx : decode x = .finite neg m e) (h : value? x = some (i : ℚ)) :
    (i.natAbs : ℚ) = m * 2 ^ e ∧ i = (if neg then -1 else 1) * (i.natAbs : ℤ) := by
  have hnonneg : (0 : ℚ) ≤ m * 2 ^ e := by positivity
  rw [value?, hx, Exact.value?, Option.some.injEq, mul_assoc] at h
  rw [Nat.cast_natAbs, Int.cast_abs, ← h]
  cases neg with
  | false =>
      have hi : 0 ≤ i := by
        rw [if_neg Bool.false_ne_true, one_mul] at h
        exact_mod_cast h ▸ hnonneg
      rw [if_neg Bool.false_ne_true, one_mul, abs_of_nonneg hnonneg]
      exact ⟨rfl, by simp [abs_of_nonneg hi]⟩
  | true =>
      have hi : i ≤ 0 := by
        rw [if_pos rfl, neg_one_mul, neg_eq_iff_eq_neg] at h
        exact_mod_cast neg_nonneg.mp (h ▸ hnonneg)
      rw [if_pos rfl, neg_one_mul, abs_neg, abs_of_nonneg hnonneg]
      exact ⟨rfl, by simp [abs_of_nonpos hi]⟩

theorem significand_mul (hx : decode x = .finite neg m e) (h : value? x = some (i : ℚ))
    (hlow : low ≤ e) : m * twoPow (e - low) * twoPow low = i.natAbs * twoPow (-low) := by
  have hunit : (twoPow (e - low) : ℚ) = 2 ^ (e - low) := by
    rw [← twoPow_div, twoPow_of_nonpos (by omega : -(e - low) ≤ 0), Nat.cast_one, div_one]
  have hscale : (twoPow low : ℚ) = 2 ^ low * twoPow (-low) := by
    rw [← twoPow_div, div_mul_cancel₀]
    exact_mod_cast (twoPow_pos _).ne'
  have hcast : (m * twoPow (e - low) * twoPow low : ℚ) = i.natAbs * twoPow (-low) := by
    rw [hunit, hscale, (natAbs_eq hx h).1, ← mul_assoc, mul_assoc (m : ℚ), ← zpow_add₀ two_ne_zero,
      sub_add_cancel]
  exact_mod_cast hcast

end Integers

/-- The remainder of integers is that of a division that rounds toward zero. -/
theorem value?_remainder (hx : value? x = some (i : ℚ)) (hy : value? y = some (n : ℚ)) (hn : n ≠ 0)
    (hn' : n < 2 ^ 53) : value? (remainder x y) = some ((i.tmod n : ℤ) : ℚ) := by
  have hy' : value? y = some ((n : ℤ) : ℚ) := hy
  have hmod : i.natAbs % n < 2 ^ 53 := (Nat.mod_lt _ (Nat.pos_of_ne_zero hn)).trans hn'
  cases hdx : decode x with
  | nan | infinite =>
      rw [value?, hdx] at hx
      cases hx
  | finite neg m e =>
  cases hdy : decode y with
  | nan | infinite =>
      rw [value?, hdy] at hy
      cases hy
  | finite neg' m' e' =>
  obtain ⟨low, hlow⟩ : ∃ low, low = min e e' := ⟨_, rfl⟩
  have hx' := significand_mul hdx hx (by omega : low ≤ e)
  have hy'' := significand_mul hdy hy' (by omega : low ≤ e')
  have hm' : m' ≠ 0 := by
    rintro rfl
    have := (natAbs_eq hdy hy').1
    simp [hn] at this
  have hunit : twoPow (-low) ≠ 0 := (twoPow_pos _).ne'
  have hrest : m * twoPow (e - low) % (m' * twoPow (e' - low)) * twoPow low =
      i.natAbs % n * twoPow (-low) := by
    rw [← Nat.mul_mod_mul_right, hx', hy'', Nat.mul_mod_mul_right]
    rfl
  have htmod : i.tmod n = (if neg then -1 else 1) * ((i.natAbs % n : ℕ) : ℤ) := by
    conv_lhs => rw [(natAbs_eq hdx hx).2]
    cases neg with
    | false => rw [if_neg Bool.false_ne_true, one_mul, one_mul, Int.ofNat_tmod]
    | true => rw [if_pos rfl, neg_one_mul, neg_one_mul, Int.neg_tmod, Int.ofNat_tmod]
  have hquotient : ((i.natAbs % n * twoPow (-low) : ℕ) : ℚ) / twoPow (-low) = (i.natAbs % n : ℕ) := by
    rw [Nat.cast_mul, mul_div_cancel_right₀ _ (by exact_mod_cast hunit)]
  rw [remainder, hdx, hdy]
  simp only [if_neg hm', ← hlow, ofScaled, hrest]
  rw [value?_ofRatio hunit (value?_ofNat hmod) ((Nat.abs_cast _).trans hquotient.symm) neg, hquotient,
    htmod, Int.cast_mul, Int.cast_natCast, apply_ite Int.cast, Int.cast_neg, Int.cast_one]

theorem value?_remainderEuclid (hx : value? x = some (i : ℚ)) (hy : value? y = some (n : ℚ))
    (hn : n ≠ 0) (hn' : n < 2 ^ 53) :
    value? (remainderEuclid x y) = some ((i % n : ℤ) : ℚ) := by
  have hpos : (0 : ℚ) < n := by exact_mod_cast Nat.pos_of_ne_zero hn
  have hremainder := value?_remainder hx hy hn hn'
  have hbound := Int.emod_lt_of_pos i (by omega : (0 : ℤ) < n)
  have hnonneg := Int.emod_nonneg i (by omega : (n : ℤ) ≠ 0)
  have hmod : i.tmod n = i % n ∨ i.tmod n = i % n - n := by
    rw [Int.tmod_eq_emod]
    split
    · exact .inl (sub_zero _)
    · exact .inr rfl
  simp only [remainderEuclid, lt_zero_iff hremainder, abs_eq_self hy hpos]
  rcases hmod with hmod | hmod <;> rw [hmod] at hremainder ⊢
  · rwa [if_neg (by exact_mod_cast hnonneg.not_gt)]
  · rw [if_pos (by exact_mod_cast (by omega : i % (n : ℤ) - n < 0))]
    have hsum : (((i % n - n : ℤ) : ℚ) + n : ℚ) = ((i % n : ℤ) : ℚ) := by
      push_cast
      ring
    rw [← hsum]
    refine value?_add hremainder hy (z := ofNat (i % n).toNat) ?_
    rw [value?_ofNat (by omega), hsum, ← Int.toNat_of_nonneg hnonneg]
    rfl

end Steps

namespace Word

variable {x : Float} {q : ℚ} {i : ℤ}

/-- The word of a number is its whole part, counted modulo `2 ^ 32`. -/
theorem toNat_ofDouble (h : value? x = some q) :
    ((ofDouble x).toNat : ℤ) = towardZero q % 2 ^ 32 := by
  have hfinite : x.isFinite = true := by
    rw [isFinite_eq, h]
    rfl
  have hmodulus : value? modulus = some ((2 ^ 32 : ℕ) : ℚ) := value?_ofNat (by decide)
  have hvalue := value?_remainderEuclid (value?_truncate h) hmodulus (by decide) (by decide)
  have hnonneg := Int.emod_nonneg (towardZero q) (by decide : ((2 ^ 32 : ℕ) : ℤ) ≠ 0)
  have hlt := Int.emod_lt_of_pos (towardZero q) (by decide : (0 : ℤ) < (2 ^ 32 : ℕ))
  have hcast : ((towardZero q % (2 ^ 32 : ℕ)).toNat : ℤ) = towardZero q % (2 ^ 32 : ℕ) :=
    Int.toNat_of_nonneg hnonneg
  rw [← hcast, Int.cast_natCast] at hvalue
  rw [ofDouble, if_pos hfinite, toNat_toUInt32 hvalue (by omega), hcast]
  rfl

theorem ofDouble_of_not_isFinite (h : x.isFinite = false) : ofDouble x = 0 := by
  rw [ofDouble, if_neg (Bool.eq_false_iff.mp h)]

theorem ofDouble_eq {w : UInt32} (h : value? x = some (i : ℚ)) (hi : i % 2 ^ 32 = w.toNat) :
    ofDouble x = w := by
  have hword := toNat_ofDouble h
  rw [towardZero_intCast, hi] at hword
  exact UInt32.toNat_inj.mp (by exact_mod_cast hword)

theorem value?_ofInt (h : i.natAbs < 2 ^ 53) : value? (ofInt i) = some (i : ℚ) := by
  have habs : |(i.natAbs : ℚ)| = i.natAbs / (1 : ℕ) := by rw [Nat.abs_cast, Nat.cast_one, div_one]
  rw [ofInt, value?_ofRatio one_ne_zero (value?_ofNat h) habs, Nat.cast_one, div_one,
    Nat.cast_natAbs, Int.cast_abs]
  by_cases hi : i < 0
  · have hq : (i : ℚ) < 0 := by exact_mod_cast hi
    simp [hi, abs_of_neg hq]
  · have hq : (0 : ℚ) ≤ i := by exact_mod_cast Int.not_lt.mp hi
    simp [hi, abs_of_nonneg hq]

theorem value?_signedToDouble (w : UInt32) : value? (signedToDouble w) = some (signed w : ℚ) := by
  have hbounds := signed_bounds w
  simp only [Nat.pow_eq] at hbounds
  exact value?_ofInt (by omega)

theorem value?_toDouble (w : UInt32) : value? (toDouble w) = some ((w.toNat : ℤ) : ℚ) :=
  value?_ofNat (w.toNat_lt.trans (by decide))

theorem ofDouble_signedToDouble (w : UInt32) : ofDouble (signedToDouble w) = w :=
  ofDouble_eq (value?_signedToDouble w) (signed_emod w)

theorem ofDouble_toDouble (w : UInt32) : ofDouble (toDouble w) = w :=
  ofDouble_eq (value?_toDouble w) (Int.emod_eq_of_lt (by omega) (by exact_mod_cast w.toNat_lt))

end Word

end SmallScript.Number
