import SmallScript.Tree

namespace SmallScript

/-- Where a statement stands: in a loop of its function, in a function. -/
structure Place where
  inLoop : Bool
  inFunction : Bool

namespace Place

def top : Place := ⟨false, false⟩

def body : Place := ⟨false, true⟩

def loop (p : Place) : Place := { p with inLoop := true }

end Place

/-- A scope and the statements that stand directly in it. -/
structure Scope where
  isFunction : Bool
  /-- The `let` and `const` names it starts with: for the program, those of the session. -/
  lexical : List String
  /-- The other names it starts with: parameters, and for the program the `var` and function names
  of the session. -/
  params : List String
  body : List Stmt

namespace Scope

def block (body : List Stmt) : Scope := ⟨false, [], [], body⟩

def function (params : List String) (body : List Stmt) : Scope := ⟨true, [], params, body⟩

def forLoop (init : Option Stmt) (body : Stmt) : Scope := block (init.toList ++ [body])

end Scope

def Expr.bare : Expr → Expr
  | paren e => e.bare
  | e => e

theorem Expr.bare_ne_paren (e b : Expr) : e.bare ≠ .paren b := by
  fun_induction bare e with
  | case1 e ih => exact ih
  | case2 e h => exact h b

inductive Part where
  | expr (e : Expr)
  | stmt (p : Place) (t : Stmt)
  | scope (s : Scope)

mutual

def exprParts : Expr → List Part
  | .ident x => [.expr (.ident x)]
  | .number x => [.expr (.number x)]
  | .bool b => [.expr (.bool b)]
  | .null => [.expr .null]
  | .string s => [.expr (.string s)]
  | .paren e => .expr (.paren e) :: exprParts e
  | .array items => .expr (.array items) :: exprsParts items
  | .object properties => .expr (.object properties) :: propertyParts properties
  | .function f => .expr (.function f) :: functionParts f
  | .field e x => .expr (.field e x) :: exprParts e
  | .index e k => .expr (.index e k) :: (exprParts e ++ exprParts k)
  | .call e args => .expr (.call e args) :: (exprParts e ++ exprsParts args)
  | .new e args => .expr (.new e args) :: (exprParts e ++ exprsParts args)
  | .binary op l r => .expr (.binary op l r) :: (exprParts l ++ exprParts r)
  | .unary op e => .expr (.unary op e) :: exprParts e
  | .update op e => .expr (.update op e) :: exprParts e
  | .assign op l r => .expr (.assign op l r) :: (exprParts l ++ exprParts r)
  | .cond c t f => .expr (.cond c t f) :: (exprParts c ++ exprParts t ++ exprParts f)

def exprsParts : List Expr → List Part
  | [] => []
  | e :: es => exprParts e ++ exprsParts es

def propertyParts : List (String × Expr) → List Part
  | [] => []
  | (_, e) :: ps => exprParts e ++ propertyParts ps

def maybeExprParts : Option Expr → List Part
  | none => []
  | some e => exprParts e

def functionParts : Function → List Part
  | .mk _ params body => .scope (.function params body) :: stmtsParts .body body

def declaratorParts : List (String × Option Expr) → List Part
  | [] => []
  | (_, init) :: ds => maybeExprParts init ++ declaratorParts ds

/-- The parts of a statement that stands at `p`. Only the body of a loop is in the loop. -/
def stmtParts (p : Place) : Stmt → List Part
  | .decl kind ds => .stmt p (.decl kind ds) :: declaratorParts ds
  | .function f => .stmt p (.function f) :: functionParts f
  | .ifElse c t none => .stmt p (.ifElse c t none) :: (exprParts c ++ stmtParts p t)
  | .ifElse c t (some f) =>
    .stmt p (.ifElse c t (some f)) :: (exprParts c ++ stmtParts p t ++ stmtParts p f)
  | .whileLoop c body => .stmt p (.whileLoop c body) :: (exprParts c ++ stmtParts p.loop body)
  | .doWhile body c => .stmt p (.doWhile body c) :: (stmtParts p.loop body ++ exprParts c)
  | .forLoop init test update body =>
    .stmt p (.forLoop init test update body) :: .scope (.forLoop init body) ::
      (maybeStmtParts p init ++ maybeExprParts test ++ maybeExprParts update
        ++ stmtParts p.loop body)
  | .block body => .stmt p (.block body) :: .scope (.block body) :: stmtsParts p body
  | .tryCatch body handler finalizer =>
    .stmt p (.tryCatch body handler finalizer) ::
      (.scope (.block body) :: stmtsParts p body
        ++ (match handler with
          | some (_, body) => .scope (.block body) :: stmtsParts p body
          | none => [])
        ++ (match finalizer with
          | some body => .scope (.block body) :: stmtsParts p body
          | none => []))
  | .breakLoop => [.stmt p .breakLoop]
  | .continueLoop => [.stmt p .continueLoop]
  | .returnValue e => .stmt p (.returnValue e) :: maybeExprParts e
  | .throw e => .stmt p (.throw e) :: exprParts e
  | .expr e => .stmt p (.expr e) :: exprParts e
  | .empty => [.stmt p .empty]

def maybeStmtParts (p : Place) : Option Stmt → List Part
  | none => []
  | some t => stmtParts p t

def stmtsParts (p : Place) : List Stmt → List Part
  | [] => []
  | t :: ts => stmtParts p t ++ stmtsParts p ts

end

def programParts (lexical params : List String) (program : List Stmt) : List Part :=
  .scope ⟨true, lexical, params, program⟩ :: stmtsParts .top program

end SmallScript
