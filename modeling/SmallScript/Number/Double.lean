namespace SmallScript.Number.Double

inductive Exact where
  | nan
  | infinite (neg : Bool)
  | finite (neg : Bool) (mant : Nat) (exp : Int)
  deriving DecidableEq

def minExp : Int := -1074

def nan : Float := Float.ofBits 0x7FF8000000000000

def infinity : Float := Float.ofBits 0x7FF0000000000000

def decodeWord (w : Nat) : Exact :=
  let neg := decide (Nat.pow 2 63 ≤ w)
  let e : Nat := w / Nat.pow 2 52 % 2048
  let f := w % Nat.pow 2 52
  if e = 2047 then
    if f = 0 then .infinite neg else .nan
  else if e = 0 then .finite neg f minExp
  else .finite neg (Nat.pow 2 52 + f) ((e : Int) - 1075)

def decode (x : Float) : Exact := decodeWord x.toBits.toNat

/-- `n / d` rounded to a natural number, a tie to the even neighbour. -/
def roundDiv (n d : Nat) : Nat :=
  let q := n / d
  let r := n % d
  if 2 * r < d then q
  else if d < 2 * r then q + 1
  else q + q % 2

theorem roundDiv_cases (n d : Nat) :
    roundDiv n d = n / d ∧ 2 * (n % d) ≤ d ∨ roundDiv n d = n / d + 1 ∧ d ≤ 2 * (n % d) := by
  unfold roundDiv
  dsimp only
  split
  · exact Or.inl ⟨rfl, by omega⟩
  · split
    · exact Or.inr ⟨rfl, by omega⟩
    · rcases Nat.mod_two_eq_zero_or_one (n / d) with h | h
      · exact Or.inl ⟨by omega, by omega⟩
      · exact Or.inr ⟨by omega, by omega⟩

theorem roundDiv_even_of_tie {n d : Nat} (h : 2 * (n % d) = d) : roundDiv n d % 2 = 0 := by
  unfold roundDiv
  dsimp only
  rw [if_neg (by omega), if_neg (by omega)]
  omega

def twoPow (e : Int) : Nat := Nat.pow 2 e.toNat

/-- The exponent at which `n / d` has a significand of 53 bits, or `minExp` if that is larger. -/
def scaleOf (n d : Nat) : Int :=
  let q : Int := n.log2 - d.log2 - 53
  let q := if n * twoPow (-q) < Nat.pow 2 53 * (d * twoPow q) then q else q + 1
  max q minExp

/-- The word of the nonnegative double next to `n / d`. A significand that rounds up to `2 ^ 53`
carries into the exponent field by itself, and past the last exponent lies infinity. -/
def wordOfRatio (n d : Nat) : Nat :=
  if n = 0 then 0
  else
    let q := scaleOf n d
    let m := roundDiv (n * twoPow (-q)) (d * twoPow q)
    min ((q - minExp).toNat * Nat.pow 2 52 + m) (2047 * Nat.pow 2 52)

def ofRatio (neg : Bool) (n d : Nat) : Float :=
  Float.ofBits (UInt64.ofNat ((if neg then Nat.pow 2 63 else 0) + wordOfRatio n d))

def ofNat (n : Nat) : Float := ofRatio false n 1

def ofInt (i : Int) : Float := ofRatio (decide (i < 0)) i.natAbs 1

def ofScaled (neg : Bool) (m : Nat) (e : Int) : Float :=
  ofRatio neg (m * twoPow e) (twoPow (-e))

/-- The double nearest to `m * 10 ^ e`. An exponent that alone decides between zero and infinity
is not raised to. -/
def ofDecimal (m : Nat) (e : Int) : Float :=
  if m = 0 then 0
  else if 400 < e then infinity
  else if m.log2 + 3 * e < -1100 then 0
  else ofRatio false (m * Nat.pow 10 e.toNat) (Nat.pow 10 (-e).toNat)

def Exact.wholePart : Exact → Option Int
  | .nan => none
  | .infinite _ => none
  | .finite neg m e =>
    let n : Nat := m * twoPow e / twoPow (-e)
    some (if neg then -n else n)

def Exact.whole? : Exact → Option Int
  | .finite neg m e =>
    if m * twoPow e % twoPow (-e) = 0 then (Exact.finite neg m e).wholePart else none
  | _ => none

/-- The remainder of a division that rounds toward zero: exact, with the sign of the dividend. -/
def remainder (x y : Float) : Float :=
  match decode x, decode y with
  | .nan, _ => nan
  | _, .nan => nan
  | .infinite _, _ => nan
  | .finite .., .infinite _ => x
  | .finite neg m e, .finite _ m' e' =>
    if m' = 0 then nan
    else
      let low := min e e'
      ofScaled neg (m * twoPow (e - low) % (m' * twoPow (e' - low))) low

def truncate (x : Float) : Float :=
  match decode x with
  | .finite neg m e => ofScaled neg (m * twoPow e / twoPow (-e)) 0
  | _ => x

/-- The remainder moved up by the size of the divisor if it is negative. -/
def remainderEuclid (x y : Float) : Float :=
  let r := remainder x y
  if r < 0 then r + y.abs else r

end SmallScript.Number.Double
