import SmallScript.Proofs.Parts

namespace SmallScript

namespace Expr

def layers : Expr → Nat
  | paren e => e.layers + 1
  | _ => 0

def isName : Expr → Bool
  | ident _ => true
  | _ => false

end Expr

/-- The operand `e` of a unary operator without its parentheses, given the expression `b` in them. -/
def UnaryOp.stripOperand (op : UnaryOp) (e b : Expr) : Expr :=
  if op = .typeOf ∧ e.isName = false ∧ e.bare.isName = true then .paren b else b

mutual

def Expr.strip : Expr → Expr
  | .ident x => .ident x
  | .number x => .number x
  | .bool b => .bool b
  | .null => .null
  | .string s => .string s
  | .paren e => e.strip
  | .array items => .array (stripExprs items)
  | .object properties => .object (stripProperties properties)
  | .function f => .function f.strip
  | .field e x => .field e.strip x
  | .index e k => .index e.strip k.strip
  | .call e args => .call e.strip (stripExprs args)
  | .new e args => .new e.strip (stripExprs args)
  | .binary op l r => .binary op l.strip r.strip
  | .unary op e => .unary op (op.stripOperand e e.strip)
  | .update op e => .update op e.strip
  | .assign op l r => .assign op l.strip r.strip
  | .cond c t f => .cond c.strip t.strip f.strip

def stripExprs : List Expr → List Expr
  | [] => []
  | e :: es => e.strip :: stripExprs es

def stripProperties : List (String × Expr) → List (String × Expr)
  | [] => []
  | (key, e) :: ps => (key, e.strip) :: stripProperties ps

def stripOption : Option Expr → Option Expr
  | none => none
  | some e => some e.strip

def Function.strip : Function → Function
  | .mk name params body => .mk name params (stripStmts body)

def stripDeclarators : List (String × Option Expr) → List (String × Option Expr)
  | [] => []
  | (x, init) :: ds => (x, stripOption init) :: stripDeclarators ds

def Stmt.strip : Stmt → Stmt
  | .decl kind ds => .decl kind (stripDeclarators ds)
  | .function f => .function f.strip
  | .ifElse c t f => .ifElse c.strip t.strip (stripBranch f)
  | .whileLoop c body => .whileLoop c.strip body.strip
  | .doWhile body c => .doWhile body.strip c.strip
  | .forLoop init test update body =>
    .forLoop (stripBranch init) (stripOption test) (stripOption update) body.strip
  | .block body => .block (stripStmts body)
  | .tryCatch body handler finalizer =>
    .tryCatch (stripStmts body) (stripHandler handler) (stripFinalizer finalizer)
  | .breakLoop => .breakLoop
  | .continueLoop => .continueLoop
  | .returnValue e => .returnValue (stripOption e)
  | .throw e => .throw e.strip
  | .expr e => .expr e.strip
  | .empty => .empty

def stripBranch : Option Stmt → Option Stmt
  | none => none
  | some t => some t.strip

def stripHandler : Option (String × List Stmt) → Option (String × List Stmt)
  | none => none
  | some (x, body) => some (x, stripStmts body)

def stripFinalizer : Option (List Stmt) → Option (List Stmt)
  | none => none
  | some body => some (stripStmts body)

def stripStmts : List Stmt → List Stmt
  | [] => []
  | t :: ts => t.strip :: stripStmts ts

end

@[simp] theorem Function.strip_name (f : Function) : f.strip.name = f.name := by
  cases f
  rfl

@[simp] theorem Function.strip_params (f : Function) : f.strip.params = f.params := by
  cases f
  rfl

@[simp] theorem Function.strip_body (f : Function) : f.strip.body = stripStmts f.body := by
  cases f
  rfl

namespace Expr

theorem isName_strip (e : Expr) : e.strip.isName = e.bare.isName := by
  fun_induction bare e with
  | case1 e ih => exact ih
  | case2 e h => cases e <;> first | rfl | exact (h _ rfl).elim

theorem strip_bare (e : Expr) : e.bare.strip = e.strip := by
  fun_induction bare e with
  | case1 e ih => exact ih
  | case2 e h => rfl

theorem bare_strip (e : Expr) : e.strip.bare = e.strip := by
  fun_induction bare e with
  | case1 e ih => exact ih
  | case2 e h => cases e <;> first | rfl | exact (h _ rfl).elim

end Expr

theorem UnaryOp.isName_stripOperand (e : Expr) (h : e.isName = false) :
    (typeOf.stripOperand e e.strip).isName = false := by
  rw [stripOperand]
  split
  · rfl
  · rename_i hkeeps
    rw [e.isName_strip, Bool.eq_false_iff]
    exact fun hname => hkeeps ⟨rfl, h, hname⟩

end SmallScript
