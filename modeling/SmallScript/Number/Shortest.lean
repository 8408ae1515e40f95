import SmallScript.Number.Double

namespace SmallScript.Number.Shortest

/-- `0.d₁d₂… * 10 ^ point`: the digits of a positive decimal and where its point stands. -/
structure Decimal where
  digits : List Nat
  point : Int
  deriving DecidableEq

def digitsOf (n : Nat) : List Nat :=
  if n = 0 then [] else (Nat.toDigits 10 n).map fun c => c.toNat - '0'.toNat

def dropZeros : List Nat → List Nat
  | [] => []
  | d :: ds =>
    match dropZeros ds with
    | [] => if d = 0 then [] else [d]
    | rest => d :: rest

/-- The reals `n / d` between `(n - below) / d` and `(n + above) / d` that round to one double. -/
structure Interval where
  n : Nat
  d : Nat
  below : Nat
  above : Nat
  closed : Bool

/-- Half the way to the next double on each side of `m * 2 ^ e`; the lower one is nearer when `m`
is the least significand of its scale. -/
def Interval.of (m : Nat) (e : Int) : Interval where
  n := 4 * m * Double.twoPow (e - 2)
  d := Double.twoPow (2 - e)
  below := (if m = Nat.pow 2 52 ∧ e ≠ Double.minExp then 1 else 2) * Double.twoPow (e - 2)
  above := 2 * Double.twoPow (e - 2)
  closed := m % 2 = 0

/-- The least `k` with `n / d < 10 ^ k`. -/
def pointOf (n d : Nat) : Int :=
  if d ≤ n then (digitsOf (n / d)).length
  else 1 - ((digitsOf ((d - 1) / n)).length : Int)

/-- The neighbour of `I` on the grid `10 ^ (k - j)` that lies inside, as a count of grid steps. -/
def Interval.onGrid (I : Interval) (k : Int) (j : Nat) : Option Nat :=
  let up := Nat.pow 10 (j - k).toNat
  let down := Nat.pow 10 (k - j).toNat
  -- `f` steps of the grid are `f * down / up`
  let n := I.n * up
  let d := I.d * down
  let low := (I.n - I.below) * up
  let high := (I.n + I.above) * up
  let f := n / d
  let within (a b : Nat) : Bool := if I.closed then a ≤ b else a < b
  if n % d = 0 then some f
  else
    match within low (f * d), within ((f + 1) * d) high with
    | false, false => none
    | true, false => some f
    | false, true => some (f + 1)
    | true, true => if (f + 1) * d - n ≤ n - f * d then some (f + 1) else some f

/-- Tries the grids of `j`, `j + 1`, … digits. Seventeen are always enough. -/
def Interval.search (I : Interval) (k : Int) (j : Nat) : Nat → Decimal
  | 0 => ⟨[], 0⟩
  | tries + 1 =>
    match I.onGrid k j with
    | none => I.search k (j + 1) tries
    | some f =>
      let ds := digitsOf f
      -- a count of `10 ^ j` steps has one digit more than the grid
      ⟨dropZeros ds, k + (ds.length - j)⟩

def ofScaled (m : Nat) (e : Int) : Decimal :=
  let I := Interval.of m e
  I.search (pointOf I.n I.d) 1 17

end SmallScript.Number.Shortest
