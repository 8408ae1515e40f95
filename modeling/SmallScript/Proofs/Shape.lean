import SmallScript.Proofs.Everywhere
import SmallScript.Proofs.Grouping
import SmallScript.Proofs.Lexical.Literal
import SmallScript.Proofs.Lexical.Word

namespace SmallScript

open Lexical

def UpdateOp.isPostfix : UpdateOp → Bool
  | postIncrement | postDecrement => true
  | preIncrement | preDecrement => false

def IsIdentifier (x : String) : Prop := identifier x.toList = some (x, [])

namespace Expr

/-- The rule of the grammar that an expression is read by: calls and what binds tighter, steps behind
an operand, prefixes, binary operators, conditionals, assignments. -/
def rank : Expr → Nat
  | update op _ => if op.isPostfix then 1 else 2
  | unary _ _ => 2
  | binary _ _ _ => 3
  | cond _ _ _ => 4
  | assign _ _ _ => 5
  | _ => 0

def isMember : Expr → Bool
  | field e _ | index e _ => e.isMember
  | call _ _ | new _ _ | update _ _ | unary _ _ | binary _ _ _ | cond _ _ _ | assign _ _ _ => false
  | _ => true

def isNew : Expr → Bool
  | new _ _ => true
  | _ => false

def lead : Expr → Expr
  | field e _ | index e _ | call e _ | binary _ e _ | cond e _ _ | assign _ e _ => e.lead
  | update op e => if op.isPostfix then e.lead else update op e
  | e => e

end Expr

/-- An `if` without an `else` ends the statement. -/
def Stmt.isOpen : Stmt → Bool
  | ifElse _ _ none => true
  | ifElse _ _ (some f) => f.isOpen
  | whileLoop _ body | forLoop _ _ _ body => body.isOpen
  | _ => false

def Function.Shaped (f : Function) : Prop :=
  (∀ x ∈ f.name, IsIdentifier x) ∧ ∀ x ∈ f.params, IsIdentifier x

def Expr.Shaped : Expr → Prop
  | ident x => IsIdentifier x
  | number x => Number.IsLiteral x
  | function f => f.Shaped
  | field e x => e.rank = 0 ∧ isWord x = true
  | index e _ | call e _ => e.rank = 0
  | new e _ => e.isMember = true ∨ e.isNew = true
  | binary op l r => (l.rank ≤ 3 ∧ ∀ o ∈ l.root?, op.binding ≤ o.binding) ∧
      r.rank ≤ 3 ∧ ∀ o ∈ r.root?, op.binding < o.binding
  | unary _ e => e.rank ≤ 2
  | update op e => if op.isPostfix then e.rank = 0 else e.rank ≤ 2
  | assign _ target _ => target.rank ≤ 3
  | cond test _ _ => test.rank ≤ 3
  | _ => True

def Stmt.isInit : Stmt → Bool
  | decl _ _ | expr _ => true
  | _ => false

def Stmt.Shaped : Stmt → Prop
  | decl _ ds => ds ≠ [] ∧ ∀ d ∈ ds, IsIdentifier d.1
  | function f => f.name.isSome = true ∧ f.Shaped
  | ifElse _ t (some _) => t.isOpen = false
  | forLoop init _ _ _ => ∀ t ∈ init, t.isInit = true
  | tryCatch _ handler finalizer => (handler.isSome = true ∨ finalizer.isSome = true) ∧
      ∀ c ∈ handler, IsIdentifier c.1
  | _ => True

def Expr.Lone (e : Expr) : Prop := ∀ f, e.lead = function f → f.name = none

def Everywhere.shape : Everywhere := ⟨Expr.Shaped, Stmt.Shaped, Expr.Lone⟩

def Everywhere.unbraced : Everywhere :=
  ⟨fun _ => True, fun _ => True, fun e => e.lead ≠ .object []⟩

end SmallScript
