import SmallScript.Lexical.Class
import SmallScript.Number.Double
import SmallScript.Scan

namespace SmallScript.Number.Numeral

open Lexical Scan

def wholeMantissa : Scan (List Char × List Char) := do
  let whole ← run1 isDigit
  let fraction ← maybe (do char '.'; run isDigit)
  return (whole, fraction.getD [])

def pointMantissa : Scan (List Char × List Char) := do
  char '.'
  let fraction ← run1 isDigit
  return ([], fraction)

/-- The number that the digits of an exponent write. Once it has come to `2 ^ 16` it grows no
further, whatever digits follow. -/
def exponentOf (ds : List Char) : Nat :=
  ds.foldl (fun n c => if n < Nat.pow 2 16 then n * 10 + digitValue c else n) 0

def exponent : Scan Int := do
  let _ ← satisfy fun c => c == 'e' || c == 'E'
  let sign ← maybe (satisfy fun c => c == '+' || c == '-')
  let ds ← run1 isDigit
  return if sign = some '-' then -(exponentOf ds) else exponentOf ds

def valueOf (whole fraction : List Char) (e : Int) : Float :=
  Double.ofDecimal (numberOf 10 (whole ++ fraction)) (e - fraction.length)

def decimal : Scan Float := do
  let (whole, fraction) ← wholeMantissa <|> pointMantissa
  let e ← maybe exponent
  return valueOf whole fraction (e.getD 0)

def hexValue? (ds : List Char) : Option Float :=
  let n := numberOf 16 ds
  if n < Nat.pow 2 64 then some (Double.ofNat n) else none

def hexadecimal : Scan Float := do
  char '0'
  let _ ← satisfy fun c => c == 'x' || c == 'X'
  let ds ← run1 isHexDigit
  match hexValue? ds with
  | some x => return x
  | none => failure

def numeral : Scan Float := do
  let x ← hexadecimal <|> decimal
  notNext isNamePart
  return x

end SmallScript.Number.Numeral
