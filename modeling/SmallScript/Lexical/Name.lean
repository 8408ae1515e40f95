import SmallScript.Lexical.Class
import SmallScript.Scan

namespace SmallScript.Lexical

def reservedWords : List String :=
  ["break", "case", "catch", "class", "const", "continue", "debugger", "default", "delete", "do",
   "else", "enum", "export", "extends", "false", "finally", "for", "function", "if", "import",
   "in", "instanceof", "let", "new", "null", "return", "super", "switch", "this", "throw", "true",
   "try", "typeof", "var", "void", "while", "with"]

/-- The word `w`, not as the beginning of a longer name. -/
def keyword (w : String) : Scan Unit := do
  Scan.text w
  Scan.notNext isNamePart

def name : Scan String := do
  let c ← Scan.satisfy isNameStart
  let cs ← Scan.run isNamePart
  return String.ofList (c :: cs)

def identifier : Scan String := do
  let w ← name
  if w ∈ reservedWords then failure else return w

end SmallScript.Lexical
