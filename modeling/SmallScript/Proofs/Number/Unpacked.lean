import SmallScript.Number.Double
import Mathlib

namespace SmallScript.Number

open Float.Model Double

section Fields

variable (b : BitVec Format.binary64.numBits)

theorem toNat_unpackExponent :
    (UnpackedFloat.unpackExponent b).toNat = b.toNat / 2 ^ 52 % 2048 := by
  rw [UnpackedFloat.unpackExponent_def, BitVec.extractLsb'_toNat, Nat.shiftRight_eq_div_pow]
  rfl

theorem toNat_unpackMantissa : (UnpackedFloat.unpackMantissa b).toNat = b.toNat % 2 ^ 52 := by
  rw [UnpackedFloat.unpackMantissa_def, BitVec.extractLsb'_toNat, Nat.shiftRight_zero]

theorem unpackExponent_eq_iff {n : Nat} (hn : n < 2048) :
    UnpackedFloat.unpackExponent b = BitVec.ofNat _ n ↔ b.toNat / 2 ^ 52 % 2048 = n := by
  rw [← BitVec.toNat_inj, toNat_unpackExponent, BitVec.toNat_ofNat]
  exact iff_of_eq (congrArg (_ = ·) (Nat.mod_eq_of_lt hn))

theorem unpackMantissa_eq_zero_iff :
    UnpackedFloat.unpackMantissa b = 0#_ ↔ b.toNat % 2 ^ 52 = 0 := by
  rw [← BitVec.toNat_inj, toNat_unpackMantissa, BitVec.toNat_ofNat, Nat.zero_mod]

theorem unpackSign_eq_zero_iff : UnpackedFloat.unpackSign b = 0#1 ↔ ¬2 ^ 63 ≤ b.toNat := by
  have hb : b.toNat < 2 ^ 64 := b.isLt
  have hsign : (UnpackedFloat.unpackSign b).toNat = b.toNat / 2 ^ 63 % 2 := by
    rw [UnpackedFloat.unpackSign_def, BitVec.extractLsb'_toNat, Nat.shiftRight_eq_div_pow]
    rfl
  rw [← BitVec.toNat_inj, hsign, BitVec.toNat_ofNat]
  omega

theorem unpackSign_beq_negative :
    (UnpackedFloat.Sign.ofBitVec (UnpackedFloat.unpackSign b) == .negative) =
      decide (2 ^ 63 ≤ b.toNat) := by
  rw [UnpackedFloat.Sign.ofBitVec]
  by_cases h : 2 ^ 63 ≤ b.toNat
  · rw [if_neg fun h' => (unpackSign_eq_zero_iff b).mp h' h, decide_eq_true h]
    rfl
  · rw [if_pos ((unpackSign_eq_zero_iff b).mpr h), decide_eq_false h]
    rfl

theorem toNat_one_append {n : Nat} (m : BitVec n) : (1#1 ++ m).toNat = 2 ^ n + m.toNat := by
  rw [BitVec.toNat_append, Nat.shiftLeft_eq, Nat.mul_comm, ← Nat.two_pow_add_eq_or_of_lt m.isLt]
  simp

end Fields

section Words

variable {w : Nat}

def wordOfInfinity : Nat := 2047 * 2 ^ 52

theorem valid_of_mod_le {b : UInt64} (hb : b.toNat % 2 ^ 63 ≤ wordOfInfinity) :
    Format.binary64.Valid b.toBitVec := by
  refine ⟨fun hexponent hmantissa => absurd ?_ hmantissa⟩
  have hfield : b.toNat / 2 ^ 52 % 2048 = 2047 :=
    (unpackExponent_eq_iff _ (n := 2047) (by decide)).mp hexponent
  rw [unpackMantissa_eq_zero_iff, UInt64.toNat_toBitVec]
  rw [wordOfInfinity] at hb
  omega

theorem toBits_ofBits_of_mod_le {b : UInt64} (hb : b.toNat % 2 ^ 63 ≤ wordOfInfinity) :
    (Float.ofBits b).toBits = b := by
  rw [Float.ofBits, Float.toBits, Float.Model.ofBits, Float.Model.pack]
  exact UInt64.toBitVec_inj.mp (UnpackedFloat.pack_unpack_of_valid (valid_of_mod_le hb))

theorem toNat_toBitVec (hw : w ≤ wordOfInfinity) : (UInt64.ofNat w).toBitVec.toNat = w := by
  have hlt : w < 2 ^ 64 := Nat.lt_of_le_of_lt hw (by decide)
  simpa using Nat.mod_eq_of_lt hlt

theorem valid_of_le (hw : w ≤ wordOfInfinity) :
    Format.binary64.Valid (UInt64.ofNat w).toBitVec := by
  refine valid_of_mod_le ((Nat.mod_le _ _).trans ?_)
  rwa [← UInt64.toNat_toBitVec, toNat_toBitVec hw]

theorem toBits_ofBits (hw : w ≤ wordOfInfinity) :
    (Float.ofBits (UInt64.ofNat w)).toBits = UInt64.ofNat w := by
  refine toBits_ofBits_of_mod_le ((Nat.mod_le _ _).trans ?_)
  rwa [← UInt64.toNat_toBitVec, toNat_toBitVec hw]

end Words

def Double.Exact.ofUnpacked : UnpackedFloat → Exact
  | .notANumber => .nan
  | .infinity s => .infinite (s == .negative)
  | .zero s => .finite (s == .negative) 0 minExp
  | .finite s m e _ => .finite (s == .negative) m e

/-- A double is decoded to what it is unpacked to. -/
theorem decode_eq (x : Float) : decode x = .ofUnpacked x.toModel.unpack := by
  rw [decode, Float.toBits, ← UInt64.toNat_toBitVec, Float.Model.unpack]
  obtain ⟨b, hb⟩ : ∃ b : BitVec Format.binary64.numBits, b = x.toModel.toBits.toBitVec := ⟨_, rfl⟩
  rw [← hb]
  have hlast : UnpackedFloat.unpackExponent b = -1#_ ↔ b.toNat / 2 ^ 52 % 2048 = 2047 :=
    unpackExponent_eq_iff b (by decide)
  have hfirst : UnpackedFloat.unpackExponent b = 0#_ ↔ b.toNat / 2 ^ 52 % 2048 = 0 :=
    unpackExponent_eq_iff b (by decide)
  have hfraction := unpackMantissa_eq_zero_iff b
  rw [decodeWord, UnpackedFloat.unpack]
  simp only [Nat.pow_eq, hlast, hfirst]
  by_cases h : b.toNat / 2 ^ 52 % 2048 = 2047
  · rw [if_pos h, if_pos h]
    by_cases hzero : b.toNat % 2 ^ 52 = 0
    · rw [if_pos hzero, if_pos (hfraction.mpr hzero), Exact.ofUnpacked, unpackSign_beq_negative]
    · rw [if_neg hzero, if_neg (mt hfraction.mp hzero), Exact.ofUnpacked]
  rw [if_neg h, if_neg h]
  by_cases hsmall : b.toNat / 2 ^ 52 % 2048 = 0
  · rw [if_pos hsmall, if_pos hsmall]
    by_cases hzero : b.toNat % 2 ^ 52 = 0
    · rw [dif_pos (hfraction.mpr hzero), hzero, Exact.ofUnpacked, unpackSign_beq_negative]
    · rw [dif_neg (mt hfraction.mp hzero), Exact.ofUnpacked, unpackSign_beq_negative,
        toNat_unpackExponent, toNat_unpackMantissa, hsmall]
      rfl
  · rw [if_neg hsmall, if_neg hsmall, Exact.ofUnpacked, unpackSign_beq_negative, toNat_one_append,
      toNat_unpackExponent, toNat_unpackMantissa]
    rfl

section Comparison

variable {x y : Float}

theorem lt_iff_compare : x < y ↔ x.toModel.compare y.toModel = some .lt := by
  show decide (x.toModel < y.toModel) = true ↔ _
  rw [decide_eq_true_iff]
  exact beq_iff_eq

theorem beq_iff_compare : (x == y) = true ↔ x.toModel.compare y.toModel = some .eq := by
  show (x.toModel.compare y.toModel == some .eq) = true ↔ _
  exact beq_iff_eq

end Comparison

end SmallScript.Number
