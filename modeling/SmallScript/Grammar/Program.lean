import SmallScript.Grammar.Statement
import SmallScript.Text.Blank

namespace SmallScript

namespace Grammar

def Rules.fail : Rules := ⟨failure, failure, failure, failure⟩

def Rules.unfold (g : Rules) : Rules :=
  ⟨Grammar.expr g, Grammar.newExpr g, Grammar.stmt g, Scan.many (Grammar.stmt g)⟩

def rules (n : Nat) : Rules := Nat.repeat Rules.unfold n Rules.fail

def rulesFor (s : List Char) : Rules := rules (s.length + 1)

def statements (s : List Char) : List Stmt × List Char :=
  Scan.repeated (stmt (rulesFor s)) s

end Grammar

/-- A token with which no program goes on. Lines and columns count from one. -/
structure UnexpectedToken where
  token : String
  line : Nat
  column : Nat
  deriving DecidableEq

def UnexpectedToken.between (before rest : List Char) : UnexpectedToken where
  token := String.ofList (Text.trimEnd ((rest.takeWhile (!Lexical.isLineEnd ·)).take 20))
  line := before.count '\n' + 1
  column := (before.reverse.takeWhile (· != '\n')).length + 1

inductive ParseError where
  | unexpectedToken (t : UnexpectedToken)
  | unexpectedEnd
  deriving DecidableEq

namespace ParseError

def message : ParseError → String
  | unexpectedToken t =>
    "Unexpected token '" ++ t.token ++ "' at line " ++ toString t.line ++ ", column "
      ++ toString t.column
  | unexpectedEnd => "Unexpected end of input"

def ofPosition (s : List Char) : Option Nat → ParseError
  | some p => if p < s.length then unexpectedToken (.between (s.take p) (s.drop p)) else unexpectedEnd
  | none => unexpectedEnd

end ParseError

abbrev Program := List Stmt

def Program.ofChars? (s : List Char) : Except ParseError Program :=
  let (program, rest) := Grammar.statements s
  let rest := Lexical.skipGap rest
  match Grammar.endOfText rest with
  | some _ => .ok program
  | none => .error (.ofPosition s (some (s.length - rest.length)))

def Program.parse (source : String) : Except ParseError Program := ofChars? source.toList

end SmallScript
