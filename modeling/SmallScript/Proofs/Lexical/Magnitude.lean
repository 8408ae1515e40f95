import SmallScript.Proofs.Lexical.Literal
import SmallScript.Proofs.Number.Unpacked
import Mathlib

namespace SmallScript.Number

open Float.Model Double Scan Numeral

def IsMagnitude (x : Float) : Prop := x.isNaN = false ∧ x.toBits.toNat < 2 ^ 63

variable {w : Nat} {x : Float}

theorem isMagnitude_ofBits (hw : w ≤ wordOfInfinity) :
    IsMagnitude (Float.ofBits (UInt64.ofNat w)) := by
  have hword : (UInt64.ofNat w).toNat = w := toNat_toBitVec hw
  refine ⟨?_, ?_⟩
  · have hnan : wordOfInfinity < (UnpackedFloat.packedNaN Format.binary64).toNat := by decide
    rw [Float.isNaN, Float.Model.isNaN, Float.Model.unpack, ← Float.toBits, toBits_ofBits hw,
      Bool.eq_false_iff, Ne, UnpackedFloat.isNaN_unpack_iff_of_valid (valid_of_le hw)]
    intro h
    rw [← h, toNat_toBitVec hw] at hnan
    exact Nat.not_lt_of_le hw hnan
  · rw [toBits_ofBits hw, hword]
    exact Nat.lt_of_le_of_lt hw (by decide)

theorem isMagnitude_infinity : IsMagnitude infinity := isMagnitude_ofBits (Nat.le_refl _)

theorem isMagnitude_zero : IsMagnitude 0 := by
  constructor <;> decide

theorem wordOfRatio_le (n d : Nat) : wordOfRatio n d ≤ wordOfInfinity := by
  unfold wordOfRatio
  split
  · exact Nat.zero_le _
  · exact Nat.min_le_right _ _

theorem isMagnitude_ofRatio (n d : Nat) : IsMagnitude (ofRatio false n d) := by
  rw [ofRatio, if_neg Bool.false_ne_true, Nat.zero_add]
  exact isMagnitude_ofBits (wordOfRatio_le n d)

theorem isMagnitude_ofDecimal (m : Nat) (e : Int) : IsMagnitude (ofDecimal m e) := by
  rw [ofDecimal]
  split_ifs
  · exact isMagnitude_zero
  · exact isMagnitude_infinity
  · exact isMagnitude_zero
  · exact isMagnitude_ofRatio _ _

theorem isMagnitude_hexValue {ds : List Char} (h : hexValue? ds = some x) : IsMagnitude x := by
  rw [hexValue?, Option.ite_none_right_eq_some] at h
  cases h.2
  exact isMagnitude_ofRatio _ 1

theorem IsLiteral.isMagnitude (h : IsLiteral x) : IsMagnitude x := by
  obtain ⟨l, hl⟩ := h
  rw [numeral] at hl
  obtain ⟨y, r, hvalue, hl⟩ := bind_eq_some hl
  obtain ⟨_, r', -, hl⟩ := bind_eq_some hl
  cases hl
  rw [orElse_apply, Option.or_eq_some_iff] at hvalue
  obtain h | ⟨-, h⟩ := hvalue
  · rw [hexadecimal] at h
    obtain ⟨_, u, -, h⟩ := bind_eq_some h
    obtain ⟨_, v, -, h⟩ := bind_eq_some h
    obtain ⟨ds, w, -, h⟩ := bind_eq_some h
    cases hx : hexValue? ds with
    | none =>
        rw [hx] at h
        cases h
    | some y =>
        rw [hx] at h
        cases h
        exact isMagnitude_hexValue hx
  · rw [decimal] at h
    obtain ⟨⟨whole, fraction⟩, u, -, h⟩ := bind_eq_some h
    obtain ⟨e, v, -, h⟩ := bind_eq_some h
    cases h
    exact isMagnitude_ofDecimal _ _

end SmallScript.Number
