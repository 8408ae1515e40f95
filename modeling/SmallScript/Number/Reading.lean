import SmallScript.Number.FloatText
import SmallScript.Text.Blank

namespace SmallScript.Number.Reading

open Lexical

/-- What follows `0x`; a plus sign may stand in front of the digits. -/
def hexadecimal (s : List Char) : Float :=
  let ds := match s with
    | '+' :: r => r
    | _ => s
  if ds ≠ [] ∧ ds.all isHexDigit then (Numeral.hexValue? ds).getD Double.nan else Double.nan

/-- The characters of decimal numerals and signs. The names that `FloatText.read?` takes have
others. -/
def isFloatChar (c : Char) : Bool :=
  isDigit c || c == '.' || c == 'e' || c == 'E' || c == '+' || c == '-'

def ofTrimmed : List Char → Float
  | [] => 0
  | '0' :: 'x' :: r => hexadecimal r
  | '0' :: 'X' :: r => hexadecimal r
  | s =>
    if s = "Infinity".toList ∨ s = "+Infinity".toList then Double.infinity
    else if s = "-Infinity".toList then -Double.infinity
    else if s.all isFloatChar then (FloatText.read? s).getD Double.nan
    else Double.nan

def ofString (s : String) : Float := ofTrimmed (Text.trim s.toList)

end SmallScript.Number.Reading
