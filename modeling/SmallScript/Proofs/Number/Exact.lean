import SmallScript.Proofs.Number.Rounding
import Mathlib

namespace SmallScript.Number

open Float.Model Double

section Words

variable {w : ℕ} {x : Float} {q : ℚ}

theorem exists_infinite_iff :
    (∃ neg, decodeWord w = .infinite neg) ↔ w % 2 ^ 63 = wordOfInfinity := by
  have hsplit : w % 2 ^ 63 = w / 2 ^ 52 % 2048 * 2 ^ 52 + w % 2 ^ 52 := by omega
  have hfield : w / 2 ^ 52 % 2048 < 2048 := Nat.mod_lt _ (by decide)
  have hfraction : w % 2 ^ 52 < 2 ^ 52 := Nat.mod_lt _ (by decide)
  rw [decodeWord, hsplit, wordOfInfinity]
  simp only [Nat.pow_eq]
  split_ifs with hlast hzero <;> simp <;> omega

theorem value?_decodeWord (w : ℕ) : (decodeWord w).value? =
    if w % 2 ^ 63 < wordOfInfinity then
      some ((if 2 ^ 63 ≤ w then -1 else 1) * placeOf (w % 2 ^ 63))
    else none := by
  have hplace := place?_decodeWord w
  have hinfinite := exists_infinite_iff (w := w)
  cases hw : decodeWord w with
  | nan =>
      rw [hw] at hplace
      rw [if_neg fun h => ?_]
      · rfl
      · rw [if_pos h.le] at hplace
        cases hplace
  | infinite neg =>
      rw [if_neg (hinfinite.mp ⟨neg, hw⟩).not_lt]
      rfl
  | finite neg m e =>
      have hne : w % 2 ^ 63 ≠ wordOfInfinity := fun h => by
        obtain ⟨neg, h⟩ := hinfinite.mpr h
        cases hw.symm.trans h
      rw [hw] at hplace
      simp only [lt_iff_le_and_ne, ne_eq, hne, not_false_eq_true, and_true]
      exact hplace

theorem exists_placeOf (h : value? x = some q) : ∃ w < wordOfInfinity, |q| = placeOf w := by
  rw [value?, decode, value?_decodeWord, Option.ite_none_right_eq_some] at h
  obtain ⟨hw, h⟩ := h
  refine ⟨_, hw, ?_⟩
  rw [← Option.some.inj h, abs_mul, abs_of_nonneg (placeOf_nonneg _)]
  split <;> simp

theorem significand_bounds {neg : Bool} {m : ℕ} {e : ℤ} (h : decode x = .finite neg m e) :
    m < 2 ^ 53 ∧ minExp ≤ e ∧ (e = minExp ∨ 2 ^ 52 ≤ m) := by
  rw [decode, decodeWord] at h
  simp only [Nat.pow_eq, minExp] at h ⊢
  split_ifs at h <;> cases h <;> omega

end Words

section Quotients

variable {n d w : ℕ} {x : Float} {q : ℚ}

theorem wordOfRatio_eq (hd : d ≠ 0) (hw : w ≤ wordOfInfinity) (h : placeOf w = n / d) :
    wordOfRatio n d = w := by
  have hnearest : Rounds (n / d) (Float.ofBits (UInt64.ofNat w)) := by
    refine rounds_ofBits hw (by positivity) fun u _ => ⟨?_, fun hne htie => (hne ?_).elim⟩
    · rw [h, sub_self, abs_zero]
      exact abs_nonneg _
    · rw [h, sub_self, abs_zero, abs_eq_zero, sub_eq_zero, ← h] at htie
      exact placeOf_strictMono.injective htie.symm
  have hsame := congrArg (fun y => y.toBits.toNat) ((rounds_ofRatio hd).unique hnearest)
  simp only [ofRatio, Bool.false_eq_true, if_false, Nat.zero_add, toBits_ofBits hw,
    toBits_ofBits (wordOfRatio_le n d), ← UInt64.toNat_toBitVec, toNat_toBitVec hw,
    toNat_toBitVec (wordOfRatio_le n d)] at hsame
  exact hsame

/-- A quotient is not rounded if it is the value of a double, signs apart. -/
theorem value?_ofRatio (hd : d ≠ 0) (hx : value? x = some q) (hq : |q| = n / d) (neg : Bool) :
    value? (ofRatio neg n d) = some ((if neg then -1 else 1) * (n / d : ℚ)) := by
  obtain ⟨w, hw, hplace⟩ := exists_placeOf hx
  have hlt : w < 2 ^ 63 := Nat.lt_trans hw (by decide)
  obtain ⟨v, hv, hmod, hneg, hlt⟩ : ∃ v, v = (if neg then Nat.pow 2 63 else 0) + w ∧
      v % 2 ^ 63 = w ∧ (2 ^ 63 ≤ v ↔ neg = true) ∧ v < 2 ^ 64 := by
    refine ⟨_, rfl, ?_⟩
    cases neg <;> simp only [Nat.pow_eq, if_true, Bool.false_eq_true, if_false, iff_true, iff_false] <;>
      omega
  have hbits : (UInt64.ofNat v).toNat = v := UInt64.toNat_ofNat_of_lt' hlt
  have hvalid : (UInt64.ofNat v).toNat % 2 ^ 63 ≤ wordOfInfinity := by
    rw [hbits, hmod]
    exact hw.le
  rw [value?, decode, ofRatio, wordOfRatio_eq hd hw.le (hplace.symm.trans hq), ← hv,
    toBits_ofBits_of_mod_le hvalid, hbits, value?_decodeWord, hmod, if_pos hw, ← hplace, hq]
  simp only [hneg]

end Quotients

section Unpacked

open UnpackedFloat (Sign)

variable {x y : Float} {q : ℚ}

theorem pack_unpack (x : Float) : .ofModel (.pack x.toModel.unpack) = x := Float.ofBits_toBits x

theorem unpack_cases (h : value? x = some q) :
    (∃ s, x.toModel.unpack = .zero s ∧ q = 0) ∨
      ∃ s m e, ∃ hm : 0 < m, x.toModel.unpack = .finite s m e hm ∧ q = (s.apply m : ℚ) * 2 ^ e := by
  rw [value?, decode_eq] at h
  cases hx : x.toModel.unpack with
  | notANumber | infinity =>
      rw [hx] at h
      cases h
  | zero s =>
      rw [hx, Exact.ofUnpacked, Exact.value?, Nat.cast_zero, mul_zero, zero_mul] at h
      exact .inl ⟨s, rfl, (Option.some.inj h).symm⟩
  | finite s m e hm =>
      rw [hx] at h
      refine .inr ⟨s, m, e, hm, rfl, (Option.some.inj h).symm.trans ?_⟩
      cases s <;> simp [Sign.apply]

theorem isFinite_eq (x : Float) : x.isFinite = (value? x).isSome := by
  rw [value?, decode_eq, Float.isFinite, Float.Model.isFinite]
  cases x.toModel.unpack <;> rfl

theorem lt_zero_iff (h : value? x = some q) : x < 0 ↔ q < 0 := by
  have hzero : (0 : Float).toModel.unpack = .zero .positive := rfl
  rw [lt_iff_compare, Float.Model.compare, hzero]
  rcases unpack_cases h with ⟨s, hx, rfl⟩ | ⟨s, m, e, hm, hx, rfl⟩
  · simp [hx, UnpackedFloat.compare]
  · have hpos : (0 : ℚ) < m * 2 ^ e := by positivity
    rw [hx]
    cases s <;> simp [UnpackedFloat.compare, Sign.apply] <;> linarith

theorem abs_eq_self (h : value? x = some q) (hq : 0 < q) : x.abs = x := by
  have habs : x.toModel.unpack.abs = x.toModel.unpack := by
    rcases unpack_cases h with ⟨s, hx, rfl⟩ | ⟨s, m, e, hm, hx, rfl⟩
    · exact (lt_irrefl _ hq).elim
    · have hpos : (0 : ℚ) < m * 2 ^ e := by positivity
      rw [hx]
      cases s with
      | negative =>
          simp only [Sign.apply, Int.cast_neg, Int.cast_natCast, neg_mul] at hq
          linarith
      | positive => rfl
  show Float.ofModel (.pack x.toModel.unpack.abs) = x
  rw [habs, pack_unpack]

end Unpacked

section Casts

open UnpackedFloat (Sign ExtendedMantissa)

variable {x : Float} {n : ℕ}

theorem mantissa_shiftRight (a : ExtendedMantissa) (n : ℕ) :
    (a >>> n).mantissa = a.mantissa / 2 ^ n := by
  show (n.repeat ExtendedMantissa.shiftRightOne a).mantissa = _
  induction n with
  | zero => simp [Nat.repeat]
  | succ n ih =>
      rw [Nat.repeat, ExtendedMantissa.shiftRightOne, ih, Nat.div_div_eq_div_mul, pow_succ]

theorem roundToInt_eq (s : Sign) (m : ℕ) (e : ℤ) :
    UnpackedFloat.roundToInt s m e = s.apply (m * twoPow e / twoPow (-e) : ℕ) := by
  have hshift : (0 - (e - (e.toNat : ℤ))).toNat = (-e).toNat := by omega
  simp only [UnpackedFloat.roundToInt, UnpackedFloat.decreaseExponent,
    UnpackedFloat.shiftToExponent, hshift, mantissa_shiftRight,
    ExtendedMantissa.ofMantissaAndAccuracy, Nat.shiftLeft_eq, twoPow, sub_zero, Nat.pow_eq]

theorem toNat_toUInt32 (h : value? x = some (n : ℚ)) (hn : n < 2 ^ 32) : x.toUInt32.toNat = n := by
  have hint : x.toModel.unpack.toInt 0 (UInt32.size - 1) = n := by
    rcases unpack_cases h with ⟨s, hx, hq⟩ | ⟨s, m, e, hm, hx, hq⟩
    · rw [hx, UnpackedFloat.toInt]
      exact_mod_cast hq.symm
    rw [hx, UnpackedFloat.toInt, roundToInt_eq]
    cases s with
    | negative =>
        have hpos : (0 : ℚ) < m * 2 ^ e := by positivity
        have hn : (0 : ℚ) ≤ n := n.cast_nonneg
        simp only [Sign.apply, Int.cast_neg, Int.cast_natCast] at hq
        linarith
    | positive =>
        have hd : (0 : ℚ) < twoPow (-e) := by exact_mod_cast twoPow_pos (-e)
        rw [← twoPow_div e, Sign.apply, Int.cast_natCast, ← mul_div_assoc, eq_div_iff hd.ne'] at hq
        have hnat : n * twoPow (-e) = m * twoPow e := by exact_mod_cast hq
        rw [← hnat, Nat.mul_div_cancel _ (twoPow_pos _), Sign.apply]
  rw [Float.toUInt32, Float.Model.toUInt32, UnpackedFloat.toUInt32, hint, Int.toNat_natCast]
  exact UInt32.toNat_ofNatClamp_of_lt hn

end Casts

section Sums

open UnpackedFloat

variable {s : Sign} {k m : ℕ} {e t : ℤ} {x y z : Float} {a b c : ℚ}

theorem shiftRight_mul_two_pow (k n : ℕ) :
    (⟨k * 2 ^ n, false, false⟩ : ExtendedMantissa) >>> n = ⟨k, false, false⟩ := by
  show n.repeat ExtendedMantissa.shiftRightOne _ = _
  induction n generalizing k with
  | zero => simp [Nat.repeat]
  | succ n ih =>
      rw [Nat.repeat, pow_succ', ← mul_assoc, ih, ExtendedMantissa.shiftRightOne]
      simp

theorem totalExponent_mul_two_pow (hk : 0 < k) (j : ℕ) (e : ℤ) :
    totalExponent (k * 2 ^ j) e = totalExponent k (e + j) := by
  have hlog : (k * 2 ^ j).log2 = k.log2 + j := by
    rw [Nat.log2_eq_iff (Nat.mul_pos hk (Nat.two_pow_pos j)).ne', pow_add, Nat.add_right_comm,
      pow_add]
    exact ⟨Nat.mul_le_mul_right _ (Nat.log2_self_le hk.ne'),
      Nat.mul_lt_mul_of_pos_right Nat.lt_log2_self (Nat.two_pow_pos j)⟩
  rw [totalExponent, totalExponent, hlog]
  push_cast
  ring

theorem targetExponent_eq (hk : 0 < k) (hz : z.toModel.unpack = .finite s k t hk) :
    Format.binary64.targetExponent (totalExponent k t) = t := by
  have hdecode : decode z = .finite (s == .negative) k t := by
    rw [decode_eq, hz]
    rfl
  obtain ⟨hlt, hmin, hlow⟩ := significand_bounds hdecode
  have hhigh : k.log2 < 53 := (Nat.log2_lt hk.ne').mpr hlt
  have hlow : t = minExp ∨ 52 ≤ k.log2 := hlow.imp_right (Nat.le_log2 hk.ne').mpr
  have htarget : Format.binary64.targetExponent (totalExponent k t) =
      max ((k.log2 : ℤ) + 1 + t - 53) minExp := rfl
  rw [htarget]
  omega

/-- A significand that ends in zeros loses nothing with them. -/
theorem shiftToTargetExponent_eq {spec : Format} (hk : 0 < k)
    (ht : spec.targetExponent (totalExponent k t) = t) (j : ℕ) :
    shiftToTargetExponent spec (k * 2 ^ j) (t - j) .exact = (⟨k, false, false⟩, t) := by
  have hshift : (t - (t - (j : ℤ))).toNat = j := by omega
  rw [shiftToTargetExponent, totalExponent_mul_two_pow hk, sub_add_cancel, ht, shiftToExponent,
    hshift, ExtendedMantissa.ofMantissaAndAccuracy, shiftRight_mul_two_pow, sub_add_cancel]

theorem roundWithAccuracy_eq {spec : Format} (hk : 0 < k)
    (ht : spec.targetExponent (totalExponent k t) = t) (j : ℕ) :
    roundWithAccuracy spec s (k * 2 ^ j) (t - j) .exact = .finite s k t hk := by
  have hagain := shiftToTargetExponent_eq hk ht 0
  rw [pow_zero, mul_one, Nat.cast_zero, sub_zero] at hagain
  have hmantissa : (⟨k, false, false⟩ : ExtendedMantissa).roundedMantissa = k := rfl
  rw [roundWithAccuracy, shiftToTargetExponent_eq hk ht]
  simp only [hmantissa, hagain]
  rw [dif_neg hk.ne']

theorem round_eq {spec : Format} (hk : 0 < k) (ht : spec.targetExponent (totalExponent k t) = t)
    (h : (m : ℚ) * 2 ^ e = k * 2 ^ t) : UnpackedFloat.round spec s m e = .finite s k t hk := by
  obtain ⟨htotal, j, hdecrease⟩ : totalExponent m e = totalExponent k t ∧
      ∃ j : ℕ, decreaseExponent m e t = (k * 2 ^ j, t - j) := by
    rcases le_total e t with hle | hle <;> obtain ⟨j, rfl⟩ := Int.exists_add_of_le hle
    · obtain rfl : m = k * 2 ^ j := by
        rw [zpow_add₀ two_ne_zero, mul_left_comm, mul_comm, mul_right_inj' (two_zpow_pos e).ne'] at h
        exact_mod_cast h
      have hshift : (e - (e + j)).toNat = 0 := by omega
      refine ⟨totalExponent_mul_two_pow hk j e, j, ?_⟩
      rw [decreaseExponent, hshift, add_sub_cancel_right, Nat.shiftLeft_zero, Nat.cast_zero, sub_zero]
    · obtain rfl : m * 2 ^ j = k := by
        rw [zpow_add₀ two_ne_zero, mul_left_comm, mul_comm, mul_left_inj' (two_zpow_pos t).ne'] at h
        exact_mod_cast h
      have hshift : (t + j - t).toNat = j := by omega
      have hm : 0 < m := Nat.pos_of_mul_pos_right hk
      refine ⟨(totalExponent_mul_two_pow hm j t).symm, 0, ?_⟩
      rw [decreaseExponent, hshift, add_sub_cancel_right, Nat.shiftLeft_eq, pow_zero, mul_one,
        Nat.cast_zero, sub_zero]
  rw [UnpackedFloat.round, htotal, ht, hdecrease]
  exact roundWithAccuracy_eq hk ht j

theorem value?_zero (s : Sign) : value? (.ofModel (.pack (.zero s))) = some 0 := by
  have hdecode : decode (.ofModel (.pack (.zero s))) = .finite (s == .negative) 0 minExp := by
    cases s <;> decide
  rw [value?, hdecode, Exact.value?, Nat.cast_zero, mul_zero, zero_mul]

theorem value?_round {n : ℕ} (hz : value? z = some c) (hc : c ≠ 0)
    (h : (s.apply n : ℚ) * 2 ^ e = c) :
    value? (.ofModel (.pack (.round .binary64 s n e))) = some c := by
  rcases unpack_cases hz with ⟨s', hz', rfl⟩ | ⟨s', k, t, hk, hz', rfl⟩
  · exact (hc rfl).elim
  have hn : (0 : ℚ) ≤ n * 2 ^ e := by positivity
  have hpos : (0 : ℚ) < k * 2 ^ t := by positivity
  obtain ⟨rfl, hsame⟩ : s = s' ∧ (n : ℚ) * 2 ^ e = k * 2 ^ t := by
    cases s <;> cases s' <;>
      simp only [Sign.apply, Int.cast_neg, Int.cast_natCast, neg_mul, neg_inj] at h
    · exact ⟨rfl, h⟩
    · linarith
    · linarith
    · exact ⟨rfl, h⟩
  rw [round_eq hk (targetExponent_eq hk hz') hsame, ← hz', pack_unpack, hz]

theorem value?_normalize {m : ℤ} (hz : value? z = some c) (hm : (m : ℚ) * 2 ^ e = c) :
    value? (.ofModel (.pack (.normalize .binary64 m e s))) = some c := by
  have he := two_zpow_pos e
  rw [UnpackedFloat.normalize]
  rcases lt_trichotomy m 0 with hneg | rfl | hpos
  · rw [compare_lt_iff_lt.mpr hneg]
    have hcast : (((-m).toNat : ℕ) : ℤ) = -m := Int.toNat_of_nonneg (by omega)
    refine value?_round hz ?_ ?_
    · rw [← hm]
      exact mul_ne_zero (by exact_mod_cast hneg.ne) he.ne'
    · rw [hcast, Sign.apply, neg_neg, hm]
  · rw [Int.cast_zero, zero_mul] at hm
    rw [← hm]
    exact value?_zero s
  · rw [compare_gt_iff_gt.mpr hpos]
    have hcast : ((m.toNat : ℕ) : ℤ) = m := Int.toNat_of_nonneg hpos.le
    refine value?_round hz ?_ ?_
    · rw [← hm]
      exact mul_ne_zero (by exact_mod_cast hpos.ne') he.ne'
    · rw [hcast, Sign.apply, hm]

theorem apply_shiftLeft (s : Sign) (m : ℕ) (h : t ≤ e) :
    (s.apply (m <<< (e - t).toNat : ℕ) : ℚ) * 2 ^ t = s.apply m * 2 ^ e := by
  obtain ⟨j, rfl⟩ := Int.exists_add_of_le h
  have hshift : (t + j - t).toNat = j := by omega
  rw [hshift, Nat.shiftLeft_eq, zpow_add₀ two_ne_zero, zpow_natCast]
  cases s <;> simp only [Sign.apply] <;> push_cast <;> ring

theorem value?_add (hx : value? x = some a) (hy : value? y = some b)
    (hz : value? z = some (a + b)) : value? (x + y) = some (a + b) := by
  have hadd : x + y = .ofModel (.pack (.add .binary64 x.toModel.unpack y.toModel.unpack)) := rfl
  rcases unpack_cases hx with ⟨s, hx', rfl⟩ | ⟨s, m, e, hm, hx', rfl⟩ <;>
    rcases unpack_cases hy with ⟨s', hy', rfl⟩ | ⟨s', m', e', hm', hy', rfl⟩
  · rw [hadd, hx', hy', UnpackedFloat.add, add_zero]
    split <;> exact value?_zero _
  · have hright : UnpackedFloat.add .binary64 x.toModel.unpack y.toModel.unpack =
        y.toModel.unpack := by
      rw [hx', hy']
      rfl
    rw [hadd, hright, pack_unpack, hy, zero_add]
  · have hleft : UnpackedFloat.add .binary64 x.toModel.unpack y.toModel.unpack =
        x.toModel.unpack := by
      rw [hx', hy']
      rfl
    rw [hadd, hleft, pack_unpack, hx, add_zero]
  · rw [hadd, hx', hy', UnpackedFloat.add]
    refine value?_normalize hz ?_
    rw [Int.cast_add, add_mul, apply_shiftLeft s m (min_le_left e e'),
      apply_shiftLeft s' m' (min_le_right e e')]

end Sums

end SmallScript.Number
