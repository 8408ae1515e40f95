import SmallScript.Lexical.Class
import SmallScript.Scan
import SmallScript.Text.Units

namespace SmallScript.Lexical

open Scan

def isPlain (quote c : Char) : Bool := c != '\\' && c != quote && c != '\n' && c != '\r'

def hexDigits (n : Nat) : Scan Nat
  | s =>
    let ds := s.take n
    if ds.length = n ∧ ds.all isHexDigit then some (numberOf 16 ds, s.drop n) else none

def unitEscape : Scan Nat := do
  char '\\'
  char 'u'
  hexDigits 4

def unitEscapes : Scan (List Char) := do
  let u ← unitEscape
  let us ← many unitEscape
  return Text.Units.decode (u :: us)

def shortEscape? : Char → Option Char
  | 'n' => some '\n'
  | 't' => some '\t'
  | 'r' => some '\r'
  | 'b' => some '\x08'
  | 'f' => some '\x0c'
  | 'v' => some '\x0b'
  | _ => none

def escapeBody : Scan (List Char)
  | [] => none
  | c :: r =>
    if isLineEnd c then some ([], r)
    else if c = 'u' then none
    else if c = 'x' then (hexDigits 2 r).map fun (n, r') => ([Char.ofNat n], r')
    else if c = '0' then
      match r with
      | d :: _ => if isDigit d then some (['0'], r) else some (['\x00'], r)
      | [] => some (['\x00'], r)
    else some ([(shortEscape? c).getD c], r)

def escape : Scan (List Char) := do
  char '\\'
  escapeBody

def quotedPart (quote : Char) : Scan (List Char) :=
  run1 (isPlain quote) <|> unitEscapes <|> escape

def quotedBy (quote : Char) : Scan String := do
  char quote
  let parts ← many (quotedPart quote)
  char quote
  return String.ofList parts.flatten

def quoted : Scan String := quotedBy '"' <|> quotedBy '\''

end SmallScript.Lexical
