import SmallScript.Number.Numeral

namespace SmallScript.Number.FloatText

open Lexical Numeral

def exponentDigits? (ds : List Char) : Option Int :=
  if ds ≠ [] ∧ ds.all isDigit then some (exponentOf ds) else none

def signedDigits? : List Char → Option Int
  | '-' :: ds => (exponentDigits? ds).map fun n => -n
  | '+' :: ds => exponentDigits? ds
  | ds => exponentDigits? ds

def exponent? : List Char → Option Int
  | [] => some 0
  | c :: r => if c = 'e' ∨ c = 'E' then signedDigits? r else none

def fraction : List Char → List Char × List Char
  | '.' :: r => (r.takeWhile isDigit, r.dropWhile isDigit)
  | r => ([], r)

def number? (s : List Char) : Option Float :=
  let whole := s.takeWhile isDigit
  let (places, rest) := fraction (s.dropWhile isDigit)
  if whole = [] ∧ places = [] then none else (exponent? rest).map (valueOf whole places)

def named? (s : List Char) : Option Float :=
  let name := s.map Char.toLower
  if name = "inf".toList ∨ name = "infinity".toList then some Double.infinity
  else if name = "nan".toList then some Double.nan
  else none

def unsigned? (s : List Char) : Option Float := number? s <|> named? s

/-- The double that a whole text writes, if it writes one: digits with an optional point and an
optional exponent, or the name of an infinity or of what is not a number, with an optional sign. -/
def read? : List Char → Option Float
  | '-' :: r => (unsigned? r).map fun x => -x
  | '+' :: r => unsigned? r
  | s => unsigned? s

end SmallScript.Number.FloatText
