import SmallScript.Tree

namespace SmallScript

inductive EarlyError where
  | strayBreak
  | strayContinue
  | strayReturn
  | assignTarget
  | updateTarget
  | constWithoutValue
  | redeclared (name : String)
  /-- There is no scope to declare a name in. -/
  | noScope
  deriving DecidableEq

def EarlyError.message : EarlyError → String
  | strayBreak => "Illegal 'break' statement"
  | strayContinue => "Illegal 'continue' statement"
  | strayReturn => "Illegal 'return' statement"
  | assignTarget => "Invalid left-hand side in assignment"
  | updateTarget => "Invalid left-hand side expression in update operation"
  | constWithoutValue => "Missing initializer in const declaration"
  | redeclared x => "Identifier '" ++ x ++ "' has already been declared"
  | noScope => "Scope stack is empty"

def Expr.isTarget : Expr → Bool
  | ident _ | field .. | index .. => true
  | paren e => e.isTarget
  | _ => false

namespace Early

structure Names where
  lexical : List String
  /-- Declared by `var` here or in a scope inside, parameters, and functions of a boundary. -/
  vars : List String
  /-- Functions declared directly in a scope that is no boundary. -/
  functions : List String
  isBoundary : Bool

def Names.fresh (isBoundary : Bool) : Names := ⟨[], [], [], isBoundary⟩

/-- The state of an analysis, which is kept from one program to the next. -/
structure Analyzer where
  /-- The number of loops around the place, those outside its function left out. -/
  loopDepth : Nat
  functionDepth : Nat
  scopes : List Names

def Analyzer.new : Analyzer := ⟨0, 0, [Names.fresh true]⟩

abbrev Check := EStateM EarlyError Analyzer

def refuseUnless (b : Bool) (e : EarlyError) : Check Unit :=
  if b then return () else throw e

def setScopes (scopes : List Names) : Check Unit :=
  modify fun a => { a with scopes }

def declareLexical (x : String) : Check Unit := do
  match (← get).scopes with
  | [] => throw .noScope
  | s :: outer =>
    refuseUnless (x ∉ s.lexical ∧ x ∉ s.vars ∧ x ∉ s.functions) (.redeclared x)
    setScopes ({ s with lexical := x :: s.lexical } :: outer)

/-- The scopes after a `var` declaration of `x`, which passes through all of them up to the
boundary, and whether it got there. -/
def throughScopes (x : String) : List Names → List Names × Bool
  | [] => ([], true)
  | s :: outer =>
    if x ∈ s.lexical ∨ (!s.isBoundary ∧ x ∈ s.functions) then (s :: outer, false)
    else
      let s' := { s with vars := x :: s.vars }
      if s.isBoundary then (s' :: outer, true)
      else
        let (outer, arrived) := throughScopes x outer
        (s' :: outer, arrived)

def declareVar (x : String) : Check Unit := do
  let (scopes, arrived) := throughScopes x (← get).scopes
  setScopes scopes
  refuseUnless arrived (.redeclared x)

def declareFunction (x : String) : Check Unit := do
  match (← get).scopes with
  | [] => throw .noScope
  | s :: outer =>
    refuseUnless (x ∉ s.lexical) (.redeclared x)
    if s.isBoundary then setScopes ({ s with vars := x :: s.vars } :: outer)
    else
      refuseUnless (x ∉ s.vars) (.redeclared x)
      setScopes ({ s with functions := x :: s.functions } :: outer)

/-- A check with a change of the analyzer before it and one behind it, which is made also when the
check refuses. The second one sees the analyzer as it was at first. -/
def around (enter : Analyzer → Analyzer) (leave : Analyzer → Analyzer → Analyzer)
    (check : Check Unit) : Check Unit := fun a =>
  match check (enter a) with
  | .ok () b => .ok () (leave a b)
  | .error e b => .error e (leave a b)

def inScope (check : Check Unit) : Check Unit :=
  around (fun a => { a with scopes := Names.fresh false :: a.scopes })
    (fun _ b => { b with scopes := b.scopes.tail }) check

def inLoop (check : Check Unit) : Check Unit :=
  around (fun a => { a with loopDepth := a.loopDepth + 1 })
    (fun _ b => { b with loopDepth := b.loopDepth - 1 }) check

def inFunction (params : List String) (check : Check Unit) : Check Unit :=
  around
    (fun a =>
      ⟨0, a.functionDepth + 1, { Names.fresh true with vars := params } :: a.scopes⟩)
    (fun a b => ⟨a.loopDepth, b.functionDepth - 1, b.scopes.tail⟩) check

mutual

def checkExpr : Expr → Check Unit
  | .ident _ | .number _ | .bool _ | .null | .string _ => return ()
  | .paren e => checkExpr e
  | .array items => checkExprs items
  | .object properties => checkProperties properties
  | .function f => checkFunction f
  | .field e _ => checkExpr e
  | .index e k => do checkExpr e; checkExpr k
  | .call e args => do checkExpr e; checkExprs args
  | .new e args => do checkExpr e; checkExprs args
  | .binary _ l r => do checkExpr l; checkExpr r
  | .unary _ e => checkExpr e
  | .update _ e => do
    refuseUnless e.isTarget .updateTarget
    checkExpr e
  | .assign _ l r => do
    refuseUnless l.isTarget .assignTarget
    checkExpr l
    checkExpr r
  | .cond c t f => do checkExpr c; checkExpr t; checkExpr f

def checkExprs : List Expr → Check Unit
  | [] => return ()
  | e :: es => do checkExpr e; checkExprs es

def checkProperties : List (String × Expr) → Check Unit
  | [] => return ()
  | (_, e) :: ps => do checkExpr e; checkProperties ps

def checkOptional : Option Expr → Check Unit
  | none => pure ()
  | some e => checkExpr e

def checkFunction : Function → Check Unit
  | .mk _ params body => inFunction params (checkStmts body)

def checkDeclarators (kind : DeclKind) : List (String × Option Expr) → Check Unit
  | [] => return ()
  | (x, init) :: ds => do
    checkOptional init
    match kind with
    | .var => declareVar x
    | .letDecl => declareLexical x
    | .constDecl =>
      refuseUnless init.isSome .constWithoutValue
      declareLexical x
    checkDeclarators kind ds

def checkStmt : Stmt → Check Unit
  | .decl kind ds => checkDeclarators kind ds
  | .function f => do
    match f.name with
    | some x => declareFunction x
    | none => pure ()
    checkFunction f
  | .ifElse c t f => do
    checkExpr c
    checkStmt t
    match f with
    | some f => checkStmt f
    | none => pure ()
  | .whileLoop c body => do checkExpr c; inLoop (checkStmt body)
  | .doWhile body c => do inLoop (checkStmt body); checkExpr c
  | .forLoop init test update body =>
    inScope do
      match init with
      | some s => checkStmt s
      | none => pure ()
      checkOptional test
      checkOptional update
      inLoop (checkStmt body)
  | .block body => inScope (checkStmts body)
  | .tryCatch body handler finalizer => do
    inScope (checkStmts body)
    match handler with
    | some (_, body) => inScope (checkStmts body)
    | none => pure ()
    match finalizer with
    | some body => inScope (checkStmts body)
    | none => pure ()
  | .breakLoop => do refuseUnless (0 < (← get).loopDepth) .strayBreak
  | .continueLoop => do refuseUnless (0 < (← get).loopDepth) .strayContinue
  | .returnValue e => do
    refuseUnless (0 < (← get).functionDepth) .strayReturn
    checkOptional e
  | .throw e => checkExpr e
  | .expr e => checkExpr e
  | .empty => return ()

def checkStmts : List Stmt → Check Unit
  | [] => return ()
  | s :: ss => do checkStmt s; checkStmts ss

end

/-- Analyzes a program in the outermost scope, whatever an earlier program has left behind. If the
program is refused, that scope is put back as it was. -/
def analyze (program : List Stmt) : Check Unit := fun a =>
  let session := a.scopes.getLastD (Names.fresh true)
  match checkStmts program ⟨0, 0, a.scopes.getLast?.toList⟩ with
  | .ok () b => .ok () b
  | .error e b => .error e { b with scopes := [session] }

def check (session : Names) (program : List Stmt) : Except EarlyError Names :=
  match analyze program ⟨0, 0, [session]⟩ with
  | .error e _ => .error e
  | .ok () a => .ok (a.scopes.headD session)

end Early

end SmallScript
