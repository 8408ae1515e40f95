import SmallScript.Text.Blank

namespace SmallScript.Console

inductive EntryState where
  | code
  | string (quote : Char)
  | line
  | block

def isQuote (c : Char) : Bool := c == '"' || c == '\''

def isOpening (c : Char) : Bool := c == '(' || c == '[' || c == '\x7b'

def openingOf? : Char → Option Char
  | ')' => some '('
  | ']' => some '['
  | '\x7d' => some '\x7b'
  | _ => none

/-- Whether a text leaves something open, given the brackets that are open already, the innermost
first. A closing bracket without its partner makes the text complete; the grammar refuses it. -/
def leavesOpen : EntryState → List Char → List Char → Bool
  | .code, brackets, '/' :: '/' :: r => leavesOpen .line brackets r
  | .code, brackets, '/' :: '*' :: r => leavesOpen .block brackets r
  | .code, brackets, c :: r =>
    if isQuote c then leavesOpen (.string c) brackets r
    else if isOpening c then leavesOpen .code (c :: brackets) r
    else
      match openingOf? c with
      | none => leavesOpen .code brackets r
      | some o =>
        match brackets with
        | [] => false
        | b :: brackets => if b = o then leavesOpen .code brackets r else false
  | .code, brackets, [] => !brackets.isEmpty
  | .string quote, brackets, '\\' :: _ :: r => leavesOpen (.string quote) brackets r
  | .string quote, brackets, c :: r =>
    if c = '\n' ∨ c = quote then leavesOpen .code brackets r
    else leavesOpen (.string quote) brackets r
  | .string _, _, [] => true
  | .line, brackets, c :: r =>
    if c = '\n' then leavesOpen .code brackets r else leavesOpen .line brackets r
  | .line, brackets, [] => !brackets.isEmpty
  | .block, brackets, '*' :: '/' :: r => leavesOpen .code brackets r
  | .block, brackets, _ :: r => leavesOpen .block brackets r
  | .block, _, [] => true

def isIncomplete (entry : String) : Bool := leavesOpen .code [] entry.toList

/-- Whether another line belongs to the entry: something is open, or it ends in a backslash. -/
def continues (entry : String) : Bool :=
  entry.toList.getLast? == some '\\' || isIncomplete entry

def joinLines : List Char → List Char
  | '\\' :: '\n' :: r => '\n' :: joinLines r
  | c :: r => c :: joinLines r
  | [] => []

def complete (entry : String) : String :=
  let s := joinLines entry.toList
  match (Text.trimEnd s).getLast? with
  | none => String.ofList s
  | some c => if c = ';' ∨ c = '\x7d' then String.ofList s else String.ofList (s ++ [';'])

end SmallScript.Console
