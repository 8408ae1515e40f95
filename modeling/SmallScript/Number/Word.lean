import SmallScript.Number.Double

namespace SmallScript.Number.Word

def modulus : Float := Double.ofNat (Nat.pow 2 32)

def ofDouble (x : Float) : UInt32 :=
  if x.isFinite then (Double.remainderEuclid (Double.truncate x) modulus).toUInt32 else 0

/-- A word in two's complement, between `-2 ^ 31` and `2 ^ 31 - 1`. -/
def signed (w : UInt32) : Int :=
  if w.toNat < Nat.pow 2 31 then w.toNat else (w.toNat : Int) - (Nat.pow 2 32 : Nat)

theorem signed_bounds (w : UInt32) :
    -(Nat.pow 2 31 : Nat) ≤ signed w ∧ signed w < (Nat.pow 2 31 : Nat) := by
  have hw := w.toNat_lt
  have hhalf : Nat.pow 2 31 = 2147483648 := rfl
  have hwhole : Nat.pow 2 32 = 4294967296 := rfl
  simp only [signed, hhalf]
  split <;> constructor <;> omega

theorem signed_emod (w : UInt32) : signed w % (Nat.pow 2 32 : Nat) = w.toNat := by
  have hw := w.toNat_lt
  have hhalf : Nat.pow 2 31 = 2147483648 := rfl
  have hwhole : Nat.pow 2 32 = 4294967296 := rfl
  simp only [signed, hhalf, hwhole]
  split <;> omega

def toDouble (w : UInt32) : Float := Double.ofNat w.toNat

def signedToDouble (w : UInt32) : Float := Double.ofInt (signed w)

def shiftRightSigned (w n : UInt32) : UInt32 := (w.toInt32 >>> n.toInt32).toUInt32

end SmallScript.Number.Word
