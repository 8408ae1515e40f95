import SmallScript.Number.Shortest

namespace SmallScript.Number.Text

structure Format where
  maxPoint : Int
  minPoint : Int

def format : Format := ⟨21, -5⟩

def digitText (ds : List Nat) : String :=
  String.ofList (ds.map Nat.digitChar)

def zeros (n : Nat) : String := String.ofList (List.replicate n '0')

def positional (ds : List Nat) (point : Int) : String :=
  if point ≤ 0 then "0." ++ zeros (-point).toNat ++ digitText ds
  else if ds.length ≤ point then digitText ds ++ zeros (point.toNat - ds.length)
  else digitText (ds.take point.toNat) ++ "." ++ digitText (ds.drop point.toNat)

def exponentText (e : Int) : String :=
  (if e < 0 then "e-" else "e+") ++ toString e.natAbs

def scientific (ds : List Nat) (point : Int) : String :=
  let mantissa :=
    if ds.length ≤ 1 then digitText ds
    else digitText (ds.take 1) ++ "." ++ digitText (ds.drop 1)
  mantissa ++ exponentText (point - 1)

def decimalText (x : Shortest.Decimal) : String :=
  if format.minPoint ≤ x.point ∧ x.point ≤ format.maxPoint then positional x.digits x.point
  else scientific x.digits x.point

def signText (neg : Bool) : String := if neg then "-" else ""

def ofExact : Double.Exact → String
  | .nan => "NaN"
  | .infinite neg => signText neg ++ "Infinity"
  | .finite neg m e =>
    if m = 0 then "0" else signText neg ++ decimalText (Shortest.ofScaled m e)

def ofDouble (x : Float) : String := ofExact (Double.decode x)

end SmallScript.Number.Text
