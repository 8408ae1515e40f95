import SmallScript.Proofs.Grammar.Knot
import SmallScript.Proofs.Peg.Lexeme

namespace SmallScript.Grammar

/-- The rules that others come back to, and the ladder between them. A binary level has the index of
its operators in `levels`. -/
inductive Rule where
  | program
  | stmts
  | stmt
  | block
  | declaration
  | functionDef
  | expr
  | assignment
  | conditional
  | binary (i : Fin levels.length)
  | unaryExpr
  | postfixExpr
  | callExpr
  | newExpr
  | primary

@[reducible]
def Rule.Result : Rule → Type
  | program | stmts | block => List Stmt
  | stmt | declaration => Stmt
  | functionDef => Function
  | expr | assignment | conditional | binary _ | unaryExpr | postfixExpr | callExpr | newExpr
  | primary => Expr

abbrev Phrase (α : Type) := Peg Rule.Result α

namespace Phrase

open Peg

variable {α : Type}

abbrev call (r : Rule) : Phrase r.Result := .rule r id

def mark (c : Char) : Phrase Unit := gap *> char c

def comma : Phrase Unit := mark ','

section Expressions

def functionDef : Phrase Function :=
  Function.mk <$> (keyword "function" *> maybe (gap *> identifier))
    <*> (mark '(' *> sepBy (gap *> identifier) comma <* mark ')')
    <*> (mark '\x7b' *> call .stmts <* mark '\x7d')

def arrayItems : Phrase (List Expr) :=
  char '[' *> sepBy (call .expr) comma <* maybe comma <* mark ']'

def propertyKey : Phrase String := name <|> quoted <|> Number.Text.ofDouble <$> numeral

def property : Phrase (String × Expr) :=
  Prod.mk <$> (gap *> propertyKey <* mark ':') <*> call .expr

def objectProperties : Phrase (List (String × Expr)) :=
  char '\x7b' *> sepBy property comma <* maybe comma <* mark '\x7d'

def parenthesised : Phrase Expr := char '(' *> call .expr <* mark ')'

def constant : Phrase Expr :=
  Expr.number <$> numeral
  <|> (keyword "true").gives (Expr.bool true)
  <|> (keyword "false").gives (Expr.bool false)
  <|> (keyword "null").gives Expr.null

def primary : Phrase Expr :=
  Expr.function <$> call .functionDef
  <|> Expr.array <$> arrayItems
  <|> Expr.object <$> objectProperties
  <|> Expr.paren <$> parenthesised
  <|> constant
  <|> Expr.string <$> quoted
  <|> Expr.ident <$> identifier

def arguments : Phrase (List Expr) := char '(' *> sepBy (call .expr) comma <* mark ')'

def memberSuffix : Phrase Suffix :=
  Suffix.field <$> (char '.' *> gap *> name)
  <|> Suffix.index <$> (char '[' *> call .expr <* mark ']')

def callSuffix : Phrase Suffix := Suffix.call <$> arguments <|> memberSuffix

def member : Phrase Expr :=
  (fun e suffixes => suffixes.foldl Suffix.apply e) <$> call .primary <*> star (gap *> memberSuffix)

def newExpr : Phrase Expr :=
  (fun callee args => .new callee (args.getD []))
    <$> (keyword "new" *> gap *> (call .newExpr <|> member))
    <*> maybe (gap *> arguments)

def callExpr : Phrase Expr :=
  (fun e suffixes => suffixes.foldl Suffix.apply e) <$> (call .newExpr <|> call .primary)
    <*> star (gap *> callSuffix)

def stepAfter : Phrase UpdateOp :=
  (text "++").gives UpdateOp.postIncrement <|> (text "--").gives UpdateOp.postDecrement

def postfixExpr : Phrase Expr :=
  (fun e op => match op with
    | some op => .update op e
    | none => e) <$> call .callExpr <*> maybe (inlineGap *> stepAfter)

def leading : Phrase Leading :=
  (text "++").gives (Leading.update .preIncrement)
  <|> (text "--").gives (Leading.update .preDecrement)
  <|> (keyword "typeof").gives (Leading.unary .typeOf)
  <|> (char '~').gives (Leading.unary .bitNot)
  <|> (char '!').gives (Leading.unary .not)
  <|> (char '-').gives (Leading.unary .minus)
  <|> (char '+').gives (Leading.unary .plus)

def unaryExpr : Phrase Expr :=
  (fun ops e => ops.foldr Leading.apply e) <$> star (leading <* gap) <*> call .postfixExpr

def operatorOf : List Infix → Phrase BinaryOp
  | [] => failure
  | i :: rest =>
    (text i.op.symbol *> notNext fun c => i.notBefore.contains c).gives i.op <|> operatorOf rest

def tailOf (level : List Infix) (operand : Phrase Expr) : Phrase (BinaryOp × Expr) :=
  Prod.mk <$> (gap *> operatorOf level <* gap) <*> operand

def binaryLevel (operand : Phrase Expr) (level : List Infix) : Phrase Expr :=
  (fun first rest => rest.foldl (fun l (op, r) => .binary op l r) first)
    <$> operand <*> star (tailOf level operand)

def operand : Fin levels.length → Phrase Expr
  | ⟨0, _⟩ => call .unaryExpr
  | ⟨i + 1, h⟩ => call (.binary ⟨i, Nat.lt_of_succ_lt h⟩)

def branches : Phrase (Expr × Expr) :=
  Prod.mk <$> (mark '?' *> call .expr <* mark ':') <*> call .expr

def conditional : Phrase Expr :=
  (fun test b => match b with
    | some (t, f) => .cond test t f
    | none => test) <$> call (.binary (Fin.last 9)) <*> maybe branches

def assignOp : Phrase AssignOp :=
  (text "+=").gives AssignOp.add
  <|> (text "-=").gives AssignOp.sub
  <|> (text "*=").gives AssignOp.mul
  <|> (text "/=").gives AssignOp.div
  <|> (text "%=").gives AssignOp.rem
  <|> (char '=' *> notNext (· == '=')).gives AssignOp.set

def assignment : Phrase Expr :=
  (fun target value => match value with
    | some (op, e) => .assign op target e
    | none => target)
    <$> call .conditional <*> maybe (Prod.mk <$> (gap *> assignOp) <*> call .expr)

def expr : Phrase Expr := gap *> call .assignment

end Expressions

section Statements

def endOfText : Phrase Unit := notNext fun _ => true

def beforeBrace : Phrase Unit := .absent () (.absent () (char '\x7d'))

def stmtEnd : Phrase Unit :=
  inlineGap *> char ';'
  <|> inlineGap *> ((one Lexical.isLineEnd).gives () <|> blockComment true)
  <|> gap *> beforeBrace
  <|> gap *> endOfText

def declKind : Phrase DeclKind :=
  (keyword "var").gives DeclKind.var
  <|> (keyword "let").gives DeclKind.letDecl
  <|> (keyword "const").gives DeclKind.constDecl

def declarator : Phrase (String × Option Expr) :=
  Prod.mk <$> (gap *> identifier) <*> maybe (mark '=' *> call .expr)

def declaration : Phrase Stmt :=
  (fun kind first rest => .decl kind (first :: rest)) <$> declKind <*> declarator
    <*> star (comma *> declarator)

def block : Phrase (List Stmt) := char '\x7b' *> call .stmts <* mark '\x7d'

def condition : Phrase Expr := mark '(' *> call .expr <* mark ')'

def ifStmt : Phrase Stmt :=
  Stmt.ifElse <$> (keyword "if" *> condition) <*> call .stmt
    <*> maybe (gap *> keyword "else" *> call .stmt)

def whileStmt : Phrase Stmt :=
  Stmt.whileLoop <$> (keyword "while" *> condition) <*> call .stmt

def doStmt : Phrase Stmt :=
  Stmt.doWhile <$> (keyword "do" *> call .stmt <* gap <* keyword "while")
    <*> (condition <* maybe (inlineGap *> char ';'))

def forInit : Phrase Stmt := call .declaration <|> Stmt.expr <$> call .expr

def forStmt : Phrase Stmt :=
  Stmt.forLoop <$> (keyword "for" *> mark '(' *> gap *> maybe forInit <* mark ';')
    <*> (maybe (call .expr) <* mark ';') <*> (maybe (call .expr) <* mark ')') <*> call .stmt

def catchClause : Phrase (String × List Stmt) :=
  Prod.mk <$> (gap *> keyword "catch" *> mark '(' *> gap *> identifier <* mark ')' <* gap)
    <*> call .block

def finallyClause : Phrase (List Stmt) := gap *> keyword "finally" *> gap *> call .block

def tryStmt : Phrase Stmt :=
  .convert (fun (body, handler, finalizer) => match handler, finalizer with
    | none, none => none
    | _, _ => some (.tryCatch body handler finalizer)) <|
  (fun body handler finalizer => (body, handler, finalizer))
    <$> (keyword "try" *> gap *> call .block) <*> maybe catchClause <*> maybe finallyClause

def compound : Phrase Stmt :=
  Stmt.block <$> call .block <|> ifStmt <|> whileStmt <|> doStmt <|> forStmt <|> tryStmt

def functionDecl : Phrase Stmt :=
  .convert (fun f => f.name.map fun _ => .function f) (call .functionDef)

def jump : Phrase Stmt :=
  (keyword "break").gives Stmt.breakLoop
  <|> (keyword "continue").gives Stmt.continueLoop
  <|> Stmt.returnValue <$> (keyword "return" *> maybe (sameLine *> call .expr))
  <|> Stmt.throw <$> (keyword "throw" *> sameLine *> call .expr)

def terminated : Phrase Stmt :=
  (call .declaration <|> jump <|> Stmt.expr <$> call .expr) <* stmtEnd

def stmt : Phrase Stmt :=
  gap *> ((char ';').gives Stmt.empty <|> compound <|> functionDecl <|> terminated)

def program : Phrase (List Stmt) := call .stmts <* gap <* endOfText

end Statements

end Phrase

/-- What the rules stand for. -/
def body : ∀ r : Rule, Phrase r.Result
  | .program => Phrase.program
  | .stmts => Peg.star (Phrase.call .stmt)
  | .stmt => Phrase.stmt
  | .block => Phrase.block
  | .declaration => Phrase.declaration
  | .functionDef => Phrase.functionDef
  | .expr => Phrase.expr
  | .assignment => Phrase.assignment
  | .conditional => Phrase.conditional
  | .binary i => Phrase.binaryLevel (Phrase.operand i) (levels.get i)
  | .unaryExpr => Phrase.unaryExpr
  | .postfixExpr => Phrase.postfixExpr
  | .callExpr => Phrase.callExpr
  | .newExpr => Phrase.newExpr
  | .primary => Phrase.primary

/-- What the rules read, if others are left to `g`. -/
@[simp]
def Rules.reader (g : Rules) : ∀ r : Rule, Scan r.Result
  | .program => do
    let program ← g.stmts
    Lexical.gap
    endOfText
    return program
  | .stmts => g.stmts
  | .stmt => g.stmt
  | .block => Grammar.block g
  | .declaration => Grammar.declaration g
  | .functionDef => Grammar.functionDef g
  | .expr => g.expr
  | .assignment => Grammar.assignment g
  | .conditional => Grammar.conditional g
  | .binary i => (levels.take (i + 1)).foldl binaryLevel (Grammar.unaryExpr g)
  | .unaryExpr => Grammar.unaryExpr g
  | .postfixExpr => Grammar.postfixExpr g
  | .callExpr => Grammar.callExpr g
  | .newExpr => g.newExpr
  | .primary => Grammar.primary g

namespace Phrase

open Peg

variable {α : Type} {g : Rules}

@[simp]
theorem read_rule (r : Rule) (f : r.Result → α) :
    (Peg.rule r f : Phrase α).read g.reader = f <$> g.reader r := rfl

@[simp]
theorem read_mark (c : Char) : (mark c).read g.reader = Grammar.mark c := by
  rw [mark, read_seqRight, read_gap, read_char, Grammar.mark]

@[simp]
theorem read_comma : comma.read g.reader = Grammar.comma := read_mark ','

@[simp]
theorem read_functionDef : functionDef.read g.reader = Grammar.functionDef g := by
  simp [functionDef, Grammar.functionDef]

@[simp]
theorem read_arrayItems : arrayItems.read g.reader = Grammar.arrayItems g := by
  simp [arrayItems, Grammar.arrayItems]

@[simp]
theorem read_propertyKey : propertyKey.read g.reader = Grammar.propertyKey := by
  simp [propertyKey, Grammar.propertyKey]

@[simp]
theorem read_property : property.read g.reader = Grammar.property g := by
  simp [property, Grammar.property]

@[simp]
theorem read_objectProperties : objectProperties.read g.reader = Grammar.objectProperties g := by
  simp [objectProperties, Grammar.objectProperties]

@[simp]
theorem read_parenthesised : parenthesised.read g.reader = Grammar.parenthesised g := by
  simp [parenthesised, Grammar.parenthesised]

@[simp]
theorem read_constant : constant.read g.reader = Grammar.constant := by
  simp [constant, Grammar.constant]

@[simp]
theorem read_primary : primary.read g.reader = Grammar.primary g := by
  simp [primary, Grammar.primary]

@[simp]
theorem read_arguments : arguments.read g.reader = Grammar.arguments g := by
  simp [arguments, Grammar.arguments]

@[simp]
theorem read_memberSuffix : memberSuffix.read g.reader = Grammar.memberSuffix g := by
  simp [memberSuffix, Grammar.memberSuffix, Grammar.fieldSuffix, Grammar.indexSuffix]

@[simp]
theorem read_callSuffix : callSuffix.read g.reader = Grammar.callSuffix g := by
  simp [callSuffix, Grammar.callSuffix]

@[simp]
theorem read_member : member.read g.reader = Grammar.member g := by
  simp [member, Grammar.member]

@[simp]
theorem read_newExpr : newExpr.read g.reader = Grammar.newExpr g := by
  simp only [newExpr, Grammar.newExpr, read_ap, read_map, read_seqRight, read_keyword, read_gap,
    read_orElse, read_rule, Rules.reader, read_member, read_maybe, read_arguments, bind_map_left,
    id_map, bind_assoc]

@[simp]
theorem read_stepAfter : stepAfter.read g.reader = Grammar.stepAfter := by
  simp [stepAfter, Grammar.stepAfter]

@[simp]
theorem read_leading : leading.read g.reader = Grammar.leading := by
  simp [leading, Grammar.leading]

@[simp]
theorem read_branches : branches.read g.reader = Grammar.branches g := by
  simp [branches, Grammar.branches]

@[simp]
theorem read_assignOp : assignOp.read g.reader = Grammar.assignOp := by
  simp [assignOp, Grammar.assignOp]

@[simp]
theorem read_endOfText : endOfText.read g.reader = Grammar.endOfText := by
  rw [endOfText, read_notNext]
  funext s
  cases s <;> rfl

@[simp]
theorem read_beforeBrace : beforeBrace.read g.reader = Grammar.beforeBrace := by
  funext s
  cases s with
  | nil => rfl
  | cons c s =>
      simp only [beforeBrace, Peg.read, read_char, Scan.char, Grammar.beforeBrace]
      by_cases hc : c = '\x7d' <;> simp [hc]

@[simp]
theorem read_stmtEnd : stmtEnd.read g.reader = Grammar.stmtEnd := by
  simp [stmtEnd, Grammar.stmtEnd, atLineEnd]

@[simp]
theorem read_declKind : declKind.read g.reader = Grammar.declKind := by
  simp [declKind, Grammar.declKind]

@[simp]
theorem read_declarator : declarator.read g.reader = Grammar.declarator g := by
  simp [declarator, Grammar.declarator]

@[simp]
theorem read_declaration : declaration.read g.reader = Grammar.declaration g := by
  simp [declaration, Grammar.declaration]

@[simp]
theorem read_block : block.read g.reader = Grammar.block g := by
  simp [block, Grammar.block]

@[simp]
theorem read_condition : condition.read g.reader = Grammar.condition g := by
  simp [condition, Grammar.condition]

@[simp]
theorem read_ifStmt : ifStmt.read g.reader = Grammar.ifStmt g := by
  simp [ifStmt, Grammar.ifStmt]

@[simp]
theorem read_whileStmt : whileStmt.read g.reader = Grammar.whileStmt g := by
  simp [whileStmt, Grammar.whileStmt]

@[simp]
theorem read_doStmt : doStmt.read g.reader = Grammar.doStmt g := by
  simp [doStmt, Grammar.doStmt]

@[simp]
theorem read_forInit : forInit.read g.reader = Grammar.forInit g := by
  simp [forInit, Grammar.forInit]

@[simp]
theorem read_forStmt : forStmt.read g.reader = Grammar.forStmt g := by
  simp [forStmt, Grammar.forStmt]

@[simp]
theorem read_catchClause : catchClause.read g.reader = Grammar.catchClause g := by
  simp [catchClause, Grammar.catchClause]

@[simp]
theorem read_finallyClause : finallyClause.read g.reader = Grammar.finallyClause g := by
  simp [finallyClause, Grammar.finallyClause]

@[simp]
theorem read_tryStmt : tryStmt.read g.reader = Grammar.tryStmt g := by
  simp only [tryStmt, Grammar.tryStmt, read_convert, read_ap, read_map, read_seqRight,
    read_keyword, read_gap, read_rule, Rules.reader, read_maybe, read_catchClause,
    read_finallyClause, bind_map_left, id_map, bind_assoc, pure_bind]
  refine bind_congr fun _ => bind_congr fun _ => bind_congr fun body => ?_
  refine bind_congr fun handler => bind_congr fun finalizer => ?_
  cases handler <;> cases finalizer <;> rfl

@[simp]
theorem read_compound : compound.read g.reader = Grammar.compound g := by
  simp [compound, Grammar.compound]

@[simp]
theorem read_functionDecl : functionDecl.read g.reader = Grammar.functionDecl g := by
  rw [functionDecl, Grammar.functionDecl, read_convert, read_rule, id_map]
  refine bind_congr fun f => ?_
  cases f.name <;> rfl

@[simp]
theorem read_jump : jump.read g.reader = Grammar.jump g := by
  simp [jump, Grammar.jump]

@[simp]
theorem read_postfixExpr : postfixExpr.read g.reader = Grammar.postfixExpr g := by
  simp only [postfixExpr, Grammar.postfixExpr, read_ap, read_map, read_rule, Rules.reader,
    read_maybe, read_seqRight, read_inlineGap, read_stepAfter, bind_map_left]
  refine bind_congr fun e => bind_congr fun op => ?_
  cases op <;> rfl

@[simp]
theorem read_conditional : conditional.read g.reader = Grammar.conditional g := by
  have htest : g.reader (.binary (Fin.last 9)) = Grammar.binaryExpr g := rfl
  simp only [conditional, Grammar.conditional, read_ap, read_map, read_rule, htest,
    read_maybe, read_branches, bind_map_left]
  refine bind_congr fun test => bind_congr fun b => ?_
  cases b <;> rfl

@[simp]
theorem read_assignment : assignment.read g.reader = Grammar.assignment g := by
  simp only [assignment, Grammar.assignment, read_ap, read_map, read_rule, Rules.reader,
    read_maybe, read_seqRight, read_gap, read_assignOp, bind_map_left]
  refine bind_congr fun target => bind_congr fun value => ?_
  cases value <;> rfl

theorem read_callExpr : callExpr.read grammar.reader = Grammar.callExpr grammar := by
  simp only [callExpr, Grammar.callExpr, read_ap, read_map, read_orElse, read_rule, Rules.reader,
    grammar_newExpr, read_star, read_seqRight, read_gap, read_callSuffix, bind_map_left,
    id_map]

@[simp]
theorem read_operatorOf (level : List Infix) :
    (operatorOf level).read g.reader = Grammar.operatorOf level := by
  induction level with
  | nil => exact read_failure
  | cons i level ih => simp [operatorOf, Grammar.operatorOf, Infix.scan, ih]

theorem read_binaryLevel {p : Phrase Expr} {q : Scan Expr} (h : p.read g.reader = q)
    (level : List Infix) : (binaryLevel p level).read g.reader = Grammar.binaryLevel q level := by
  simp [binaryLevel, Grammar.binaryLevel, tailOf, Grammar.tailOf, h]

theorem read_binary (i : Fin levels.length) :
    (binaryLevel (operand i) (levels.get i)).read g.reader = g.reader (.binary i) := by
  have hoperand : (operand i).read g.reader =
      (levels.take i).foldl Grammar.binaryLevel (Grammar.unaryExpr g) := by
    obtain ⟨_ | i, h⟩ := i
    · exact id_map _
    · exact id_map _
  rw [read_binaryLevel hoperand, Rules.reader, List.take_succ_eq_append_getElem i.isLt,
    List.foldl_append]
  rfl

end Phrase

theorem read_body (r : Rule) : (body r).read grammar.reader = grammar.reader r := by
  cases r with
  | program => simp [body, Phrase.program]
  | stmts => simp [body]
  | stmt => simp [body, Phrase.stmt, Phrase.terminated, stmt, terminated]
  | block => exact Phrase.read_block
  | declaration => exact Phrase.read_declaration
  | functionDef => exact Phrase.read_functionDef
  | expr => simp [body, Phrase.expr, expr]
  | assignment => exact Phrase.read_assignment
  | conditional => exact Phrase.read_conditional
  | binary i => exact Phrase.read_binary i
  | unaryExpr => simp [body, Phrase.unaryExpr, unaryExpr]
  | postfixExpr => exact Phrase.read_postfixExpr
  | callExpr => exact Phrase.read_callExpr
  | newExpr => simp [body]
  | primary => exact Phrase.read_primary

end SmallScript.Grammar
