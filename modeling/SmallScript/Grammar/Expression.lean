import SmallScript.Lexical.Gap
import SmallScript.Lexical.Name
import SmallScript.Lexical.Quoted
import SmallScript.Number.Numeral
import SmallScript.Number.Text
import SmallScript.Tree

namespace SmallScript.Grammar

open Lexical Scan

/-- The rules that other rules come back to. All but `newExpr` take the gap in front of them. -/
structure Rules where
  expr : Scan Expr
  newExpr : Scan Expr
  stmt : Scan Stmt
  stmts : Scan (List Stmt)

def mark (c : Char) : Scan Unit := do
  gap
  char c

def comma : Scan Unit := mark ','

def functionDef (g : Rules) : Scan Function := do
  keyword "function"
  let name ← maybe (do gap; identifier)
  mark '('
  let params ← sepBy (do gap; identifier) comma
  mark ')'
  mark '\x7b'
  let body ← g.stmts
  mark '\x7d'
  return .mk name params body

def arrayItems (g : Rules) : Scan (List Expr) := do
  char '['
  let items ← sepBy g.expr comma
  let _ ← maybe comma
  mark ']'
  return items

/-- The key of a property: a name, a string, or a numeral, which stands for its own text. -/
def propertyKey : Scan String :=
  name <|> quoted <|> (do let x ← Number.Numeral.numeral; return Number.Text.ofDouble x)

def property (g : Rules) : Scan (String × Expr) := do
  gap
  let key ← propertyKey
  mark ':'
  let value ← g.expr
  return (key, value)

def objectProperties (g : Rules) : Scan (List (String × Expr)) := do
  char '\x7b'
  let properties ← sepBy (property g) comma
  let _ ← maybe comma
  mark '\x7d'
  return properties

def parenthesised (g : Rules) : Scan Expr := do
  char '('
  let e ← g.expr
  mark ')'
  return e

def constant : Scan Expr :=
  Expr.number <$> Number.Numeral.numeral
  <|> (do keyword "true"; return .bool true)
  <|> (do keyword "false"; return .bool false)
  <|> (do keyword "null"; return .null)

def primary (g : Rules) : Scan Expr :=
  Expr.function <$> functionDef g
  <|> Expr.array <$> arrayItems g
  <|> Expr.object <$> objectProperties g
  <|> Expr.paren <$> parenthesised g
  <|> constant
  <|> Expr.string <$> quoted
  <|> Expr.ident <$> identifier

inductive Suffix where
  | call (arguments : List Expr)
  | index (key : Expr)
  | field (name : String)

def Suffix.apply (e : Expr) : Suffix → Expr
  | call arguments => .call e arguments
  | index key => .index e key
  | field name => .field e name

def arguments (g : Rules) : Scan (List Expr) := do
  char '('
  let args ← sepBy g.expr comma
  mark ')'
  return args

def fieldSuffix : Scan Suffix := do
  char '.'
  gap
  Suffix.field <$> name

def indexSuffix (g : Rules) : Scan Suffix := do
  char '['
  let key ← g.expr
  mark ']'
  return .index key

def memberSuffix (g : Rules) : Scan Suffix := fieldSuffix <|> indexSuffix g

def callSuffix (g : Rules) : Scan Suffix := Suffix.call <$> arguments g <|> memberSuffix g

def member (g : Rules) : Scan Expr := do
  let e ← primary g
  let suffixes ← many (do gap; memberSuffix g)
  return suffixes.foldl Suffix.apply e

def newExpr (g : Rules) : Scan Expr := do
  keyword "new"
  gap
  let callee ← g.newExpr <|> member g
  let args ← maybe (do gap; arguments g)
  return .new callee (args.getD [])

def callExpr (g : Rules) : Scan Expr := do
  let e ← newExpr g <|> primary g
  let suffixes ← many (do gap; callSuffix g)
  return suffixes.foldl Suffix.apply e

def stepAfter : Scan UpdateOp :=
  (do text "++"; return .postIncrement) <|> (do text "--"; return .postDecrement)

def postfixExpr (g : Rules) : Scan Expr := do
  let e ← callExpr g
  match ← maybe (do inlineGap; stepAfter) with
  | some op => return .update op e
  | none => return e

inductive Leading where
  | update (op : UpdateOp)
  | unary (op : UnaryOp)

def Leading.apply : Leading → Expr → Expr
  | update op, e => .update op e
  | unary op, e => .unary op e

def leading : Scan Leading :=
  (do text "++"; return .update .preIncrement)
  <|> (do text "--"; return .update .preDecrement)
  <|> (do keyword "typeof"; return .unary .typeOf)
  <|> (do char '~'; return .unary .bitNot)
  <|> (do char '!'; return .unary .not)
  <|> (do char '-'; return .unary .minus)
  <|> (do char '+'; return .unary .plus)

def unaryExpr (g : Rules) : Scan Expr := do
  let ops ← many (do let op ← leading; gap; return op)
  let e ← postfixExpr g
  return ops.foldr Leading.apply e

structure Infix where
  op : BinaryOp
  notBefore : List Char

/-- The binary operators, the level that binds tightest first. Within a level a symbol comes
before those that it begins with. -/
def levels : List (List Infix) :=
  [[⟨.mul, ['=']⟩, ⟨.div, ['=']⟩, ⟨.rem, ['=']⟩],
   [⟨.add, ['+', '=']⟩, ⟨.sub, ['-', '=']⟩],
   [⟨.shiftRightUnsigned, ['=']⟩, ⟨.shiftRight, ['>', '=']⟩, ⟨.shiftLeft, ['=']⟩],
   [⟨.lessEq, []⟩, ⟨.greaterEq, []⟩, ⟨.less, ['<']⟩, ⟨.greater, ['>']⟩],
   [⟨.strictEq, []⟩, ⟨.strictNe, []⟩, ⟨.looseEq, []⟩, ⟨.looseNe, []⟩],
   [⟨.bitAnd, ['&', '=']⟩],
   [⟨.bitXor, ['=']⟩],
   [⟨.bitOr, ['|', '=']⟩],
   [⟨.and, []⟩],
   [⟨.or, []⟩]]

def Infix.scan (i : Infix) : Scan BinaryOp := do
  text i.op.symbol
  notNext fun c => i.notBefore.contains c
  return i.op

def operatorOf : List Infix → Scan BinaryOp
  | [] => failure
  | i :: rest => i.scan <|> operatorOf rest

def tailOf (level : List Infix) (operand : Scan Expr) : Scan (BinaryOp × Expr) := do
  gap
  let op ← operatorOf level
  gap
  let e ← operand
  return (op, e)

def binaryLevel (operand : Scan Expr) (level : List Infix) : Scan Expr := do
  let first ← operand
  let rest ← many (tailOf level operand)
  return rest.foldl (fun l (op, r) => .binary op l r) first

def binaryExpr (g : Rules) : Scan Expr := levels.foldl binaryLevel (unaryExpr g)

def branches (g : Rules) : Scan (Expr × Expr) := do
  mark '?'
  let t ← g.expr
  mark ':'
  let f ← g.expr
  return (t, f)

def conditional (g : Rules) : Scan Expr := do
  let test ← binaryExpr g
  match ← maybe (branches g) with
  | some (t, f) => return .cond test t f
  | none => return test

def assignOp : Scan AssignOp :=
  (do text "+="; return .add)
  <|> (do text "-="; return .sub)
  <|> (do text "*="; return .mul)
  <|> (do text "/="; return .div)
  <|> (do text "%="; return .rem)
  <|> (do char '='; notNext (· == '='); return .set)

def assignment (g : Rules) : Scan Expr := do
  let target ← conditional g
  match ← maybe (do gap; let op ← assignOp; let e ← g.expr; return (op, e)) with
  | some (op, e) => return .assign op target e
  | none => return target

def expr (g : Rules) : Scan Expr := do
  gap
  assignment g

end SmallScript.Grammar
