import SmallScript.Grammar.Expression

namespace SmallScript.Grammar

open Lexical Scan

def atLineEnd : Scan Unit := do
  let _ ← satisfy isLineEnd

def endOfText : Scan Unit
  | [] => some ((), [])
  | _ :: _ => none

def beforeBrace : Scan Unit
  | [] => none
  | c :: r => if c = '\x7d' then some ((), c :: r) else none

def stmtEnd : Scan Unit :=
  (do inlineGap; char ';')
  <|> (do inlineGap; atLineEnd <|> blockComment)
  <|> (do gap; beforeBrace)
  <|> (do gap; endOfText)

def declKind : Scan DeclKind :=
  (do keyword "var"; return .var)
  <|> (do keyword "let"; return .letDecl)
  <|> (do keyword "const"; return .constDecl)

def declarator (g : Rules) : Scan (String × Option Expr) := do
  gap
  let x ← identifier
  let init ← maybe (do mark '='; g.expr)
  return (x, init)

def declaration (g : Rules) : Scan Stmt := do
  let kind ← declKind
  let first ← declarator g
  let rest ← many (do comma; declarator g)
  return .decl kind (first :: rest)

def block (g : Rules) : Scan (List Stmt) := do
  char '\x7b'
  let body ← g.stmts
  mark '\x7d'
  return body

def condition (g : Rules) : Scan Expr := do
  mark '('
  let e ← g.expr
  mark ')'
  return e

def ifStmt (g : Rules) : Scan Stmt := do
  keyword "if"
  let test ← condition g
  let t ← g.stmt
  let f ← maybe (do gap; keyword "else"; g.stmt)
  return .ifElse test t f

def whileStmt (g : Rules) : Scan Stmt := do
  keyword "while"
  let test ← condition g
  let body ← g.stmt
  return .whileLoop test body

def doStmt (g : Rules) : Scan Stmt := do
  keyword "do"
  let body ← g.stmt
  gap
  keyword "while"
  let test ← condition g
  let _ ← maybe (do inlineGap; char ';')
  return .doWhile body test

def forInit (g : Rules) : Scan Stmt := declaration g <|> Stmt.expr <$> g.expr

def forStmt (g : Rules) : Scan Stmt := do
  keyword "for"
  mark '('
  gap
  let init ← maybe (forInit g)
  mark ';'
  let test ← maybe g.expr
  mark ';'
  let update ← maybe g.expr
  mark ')'
  let body ← g.stmt
  return .forLoop init test update body

def catchClause (g : Rules) : Scan (String × List Stmt) := do
  gap
  keyword "catch"
  mark '('
  gap
  let param ← identifier
  mark ')'
  gap
  let body ← block g
  return (param, body)

def finallyClause (g : Rules) : Scan (List Stmt) := do
  gap
  keyword "finally"
  gap
  block g

def tryStmt (g : Rules) : Scan Stmt := do
  keyword "try"
  gap
  let body ← block g
  let handler ← maybe (catchClause g)
  let finalizer ← maybe (finallyClause g)
  match handler, finalizer with
  | none, none => failure
  | _, _ => return .tryCatch body handler finalizer

def compound (g : Rules) : Scan Stmt :=
  Stmt.block <$> block g
  <|> ifStmt g
  <|> whileStmt g
  <|> doStmt g
  <|> forStmt g
  <|> tryStmt g

def functionDecl (g : Rules) : Scan Stmt := do
  let f ← functionDef g
  match f.name with
  | some _ => return .function f
  | none => failure

/-- `return` and `throw` take an operand from their own line only. -/
def jump (g : Rules) : Scan Stmt :=
  (do keyword "break"; return .breakLoop)
  <|> (do keyword "continue"; return .continueLoop)
  <|> (do keyword "return"; let e ← maybe (do sameLine; g.expr); return .returnValue e)
  <|> (do keyword "throw"; sameLine; let e ← g.expr; return .throw e)

def terminated (g : Rules) : Scan Stmt := do
  let s ← declaration g <|> jump g <|> Stmt.expr <$> expr g
  stmtEnd
  return s

def stmt (g : Rules) : Scan Stmt := do
  gap
  (do char ';'; return Stmt.empty) <|> compound g <|> functionDecl g <|> terminated g

end SmallScript.Grammar
