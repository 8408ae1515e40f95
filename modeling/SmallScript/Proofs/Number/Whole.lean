import SmallScript.Proofs.Lexical.Magnitude
import Mathlib

namespace SmallScript.Number

open Double

/-- The number that a double holds exactly, if it is finite. -/
def Double.Exact.value? : Exact → Option ℚ
  | .finite neg mant exp => some ((if neg then -1 else 1) * mant * 2 ^ exp)
  | _ => none

def Double.value? (x : Float) : Option ℚ := (decode x).value?

theorem twoPow_pos (e : Int) : 0 < twoPow e := Nat.two_pow_pos _

theorem twoPow_div (e : Int) : (twoPow e : ℚ) / twoPow (-e) = 2 ^ e := by
  have hcast (i : Int) : ((twoPow i : ℕ) : ℚ) = 2 ^ (i.toNat : Int) := by
    rw [zpow_natCast, twoPow]
    exact Nat.cast_pow 2 _
  rw [hcast, hcast, ← zpow_sub₀ two_ne_zero, show (e.toNat : Int) - ((-e).toNat : Int) = e by omega]

theorem value?_finite (neg : Bool) (m : Nat) (e : Int) :
    (Exact.finite neg m e).value? =
      some ((if neg then -1 else 1) * ((m * twoPow e : ℕ) / (twoPow (-e) : ℕ) : ℚ)) := by
  rw [Exact.value?, Nat.cast_mul, mul_div_assoc, twoPow_div, mul_assoc]

theorem whole?_finite (neg : Bool) (m : Nat) (e : Int) :
    (Exact.finite neg m e).whole? =
      if m * twoPow e % twoPow (-e) = 0 then
        some ((if neg then -1 else 1) * ((m * twoPow e / twoPow (-e) : ℕ) : Int))
      else none := by
  cases neg <;> simp [Exact.whole?, Exact.wholePart]

theorem mod_eq_zero_of_div_eq {n d : Nat} {i : Int} (hd : 0 < d)
    (h : ((n : ℚ) / d) = i) : n % d = 0 := by
  rw [div_eq_iff (by positivity)] at h
  have hint : (n : Int) = i * d := by exact_mod_cast h
  exact Nat.mod_eq_zero_of_dvd (Int.natCast_dvd_natCast.mp ⟨i, by rw [hint, mul_comm]⟩)

/-- A double is read as a whole number if its value is one. -/
theorem whole?_eq_some_iff (x : Exact) (i : Int) : x.whole? = some i ↔ x.value? = some (i : ℚ) := by
  cases x with
  | nan => simp [Exact.whole?, Exact.value?]
  | infinite neg => simp [Exact.whole?, Exact.value?]
  | finite neg m e =>
      rw [value?_finite, whole?_finite]
      have hd := twoPow_pos (-e)
      generalize m * twoPow e = n
      generalize twoPow (-e) = d at hd ⊢
      by_cases hmod : n % d = 0
      · obtain ⟨k, rfl⟩ := Nat.dvd_of_mod_eq_zero hmod
        have hk : ((d * k : ℕ) : ℚ) / d = k := by
          rw [Nat.cast_mul, mul_div_cancel_left₀ _ (by positivity)]
        rw [if_pos hmod, hk, Nat.mul_div_cancel_left _ hd, Option.some.injEq, Option.some.injEq]
        exact_mod_cast Iff.rfl
      · rw [if_neg hmod]
        refine iff_of_false (Option.some_ne_none i).symm fun h => hmod ?_
        cases neg with
        | false => exact mod_eq_zero_of_div_eq (i := i) hd (by simpa using h)
        | true =>
            refine mod_eq_zero_of_div_eq (i := -i) hd ?_
            rw [Int.cast_neg, ← Option.some.inj h]
            simp

section Naturals

variable {n : Nat}

theorem two_pow_le_shifted (hn : n ≠ 0) {k : Nat} (hk : n.log2 ≤ k) :
    2 ^ k ≤ n * 2 ^ (k - n.log2) :=
  calc 2 ^ k = 2 ^ n.log2 * 2 ^ (k - n.log2) := by rw [← pow_add, Nat.add_sub_cancel' hk]
    _ ≤ n * 2 ^ (k - n.log2) := Nat.mul_le_mul_right _ (Nat.log2_self_le hn)

theorem shifted_lt_two_pow {k : Nat} (hk : n.log2 ≤ k) : n * 2 ^ (k - n.log2) < 2 ^ (k + 1) :=
  calc n * 2 ^ (k - n.log2) < 2 ^ (n.log2 + 1) * 2 ^ (k - n.log2) :=
        Nat.mul_lt_mul_of_pos_right Nat.lt_log2_self (Nat.two_pow_pos _)
    _ = 2 ^ (k + 1) := by rw [← pow_add]; congr 1; omega

theorem scaleOf_one (hn : n ≠ 0) (h : n < 2 ^ 53) : scaleOf n 1 = (n.log2 : Int) - 52 := by
  have hlog : n.log2 < 53 := (Nat.log2_lt hn).mpr h
  have hone : Nat.log2 1 = 0 := by decide
  have hdown : (-((n.log2 : Int) - 0 - 53)).toNat = 53 - n.log2 := by omega
  have hup : ((n.log2 : Int) - 0 - 53).toNat = 0 := by omega
  have hnot : ¬n * twoPow (-((n.log2 : Int) - 0 - 53)) <
      Nat.pow 2 53 * (1 * twoPow ((n.log2 : Int) - 0 - 53)) := by
    rw [twoPow, twoPow, hdown, hup]
    exact Nat.not_lt_of_le (two_pow_le_shifted hn hlog.le)
  simp only [scaleOf, hone, Nat.cast_zero, if_neg hnot, minExp]
  omega

theorem roundDiv_one (n : Nat) : roundDiv n 1 = n := by
  simp [roundDiv, Nat.mod_one]

theorem wordOfRatio_one (hn : n ≠ 0) (h : n < 2 ^ 53) :
    wordOfRatio n 1 = (n.log2 + 1022) * 2 ^ 52 + n * 2 ^ (52 - n.log2) := by
  have hlog : n.log2 < 53 := (Nat.log2_lt hn).mpr h
  have hbound := shifted_lt_two_pow (n := n) (Nat.le_of_lt_succ hlog)
  have hdown : (-((n.log2 : Int) - 52)).toNat = 52 - n.log2 := by omega
  have hup : ((n.log2 : Int) - 52).toNat = 0 := by omega
  have hfield : ((n.log2 : Int) - 52 - minExp).toNat = n.log2 + 1022 := by
    rw [minExp]
    omega
  rw [wordOfRatio, if_neg hn]
  simp only [scaleOf_one hn h, twoPow, hdown, hup, hfield, Nat.pow_eq]
  rw [Nat.pow_zero, Nat.mul_one, roundDiv_one]
  refine Nat.min_eq_left ?_
  have hmul : (n.log2 + 1022) * 2 ^ 52 ≤ 1074 * 2 ^ 52 := Nat.mul_le_mul_right _ (by omega)
  exact Nat.le_trans (Nat.add_le_add hmul hbound.le) (by decide)

theorem decode_ofNat (hn : n ≠ 0) (h : n < 2 ^ 53) :
    decode (ofNat n) = .finite false (n * 2 ^ (52 - n.log2)) ((n.log2 : Int) - 52) := by
  have hlog : n.log2 ≤ 52 := Nat.le_of_lt_succ ((Nat.log2_lt hn).mpr h)
  have hlow := two_pow_le_shifted hn hlog
  have hhigh := shifted_lt_two_pow (n := n) hlog
  have hword := wordOfRatio_one hn h
  generalize n * 2 ^ (52 - n.log2) = m at *
  generalize n.log2 = k at *
  have hle : wordOfRatio n 1 ≤ wordOfInfinity := by
    rw [hword, wordOfInfinity]
    omega
  have hbits : (ofNat n).toBits.toNat = wordOfRatio n 1 := by
    rw [ofNat, ofRatio, if_neg Bool.false_ne_true, Nat.zero_add, toBits_ofBits hle]
    exact toNat_toBitVec hle
  have hfraction : wordOfRatio n 1 % 2 ^ 52 = m - 2 ^ 52 := by omega
  have hexponent : wordOfRatio n 1 / 2 ^ 52 % 2048 = k + 1023 := by omega
  have hsign : ¬2 ^ 63 ≤ wordOfRatio n 1 := by omega
  rw [decode, hbits, decodeWord]
  simp only [Nat.pow_eq, hfraction, hexponent, hsign, decide_false]
  rw [if_neg (by omega), if_neg (by omega), Nat.add_sub_cancel' hlow,
    show ((k + 1023 : ℕ) : Int) - 1075 = k - 52 by omega]

theorem value?_ofNat (h : n < 2 ^ 53) : value? (ofNat n) = some (n : ℚ) := by
  by_cases hn : n = 0
  · subst n
    have hzero : decode (ofNat 0) = .finite false 0 minExp := by decide
    simp [value?, hzero, Exact.value?]
  · have hlog : n.log2 ≤ 52 := Nat.le_of_lt_succ ((Nat.log2_lt hn).mpr h)
    have hsplit : ((2 ^ (52 - n.log2) : ℕ) : ℚ) = 2 ^ (-((n.log2 : Int) - 52)) := by
      rw [Nat.cast_pow, ← zpow_natCast, Nat.cast_two, Nat.cast_sub hlog]
      congr 1
      simp
    rw [value?, decode_ofNat hn h, Exact.value?, if_neg Bool.false_ne_true, one_mul, Nat.cast_mul,
      hsplit, mul_assoc, ← zpow_add₀ two_ne_zero, neg_add_cancel, zpow_zero, mul_one]

end Naturals

end SmallScript.Number
