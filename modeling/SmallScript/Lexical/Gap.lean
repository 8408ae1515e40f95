import SmallScript.Lexical.Class
import SmallScript.Scan

namespace SmallScript.Lexical

/-- Where a skip stands: between comments, in a comment that ends with the line, or in a comment
that ends with a star and a slash, together with the text from its start on. -/
inductive GapState where
  | between
  | line
  | block (start : List Char)

/-- The text behind the gap; `across` lets it run over line ends. -/
def skipFrom (across : Bool) : GapState → List Char → List Char
  | .between, '/' :: '/' :: r => skipFrom across .line r
  | .between, '/' :: '*' :: r => skipFrom across (.block ('/' :: '*' :: r)) r
  | .between, c :: r =>
    if isInlineBlank c || across && isLineEnd c then skipFrom across .between r else c :: r
  | .between, [] => []
  | .line, c :: r =>
    if isLineEnd c then
      if across then skipFrom across .between r else c :: r
    else skipFrom across .line r
  | .line, [] => []
  | .block _, '*' :: '/' :: r => skipFrom across .between r
  | .block start, c :: r =>
    if !across && isLineEnd c then start else skipFrom across (.block start) r
  | .block start, [] => start

def skipGap (s : List Char) : List Char := skipFrom true .between s

def skipInlineGap (s : List Char) : List Char := skipFrom false .between s

def gap : Scan Unit := Scan.skip skipGap

def inlineGap : Scan Unit := Scan.skip skipInlineGap

def afterBlock : List Char → Option (List Char)
  | '*' :: '/' :: r => some r
  | _ :: r => afterBlock r
  | [] => none

def blockComment : Scan Unit
  | '/' :: '*' :: r => (afterBlock r).map fun r' => ((), r')
  | _ => none

/-- Succeeds if the next token stands on this line; takes the gap before it. -/
def sameLine : Scan Unit := do
  inlineGap
  Scan.notNext isLineEnd

end SmallScript.Lexical
