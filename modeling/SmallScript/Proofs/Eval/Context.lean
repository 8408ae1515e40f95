import SmallScript.Proofs.Early.Nesting
import SmallScript.Proofs.Eval.Diversion
import SmallScript.Proofs.Eval.Writes
import Mathlib

namespace SmallScript

structure Level where
  scope : Scope
  /-- It is that of a program, and not of a function or inside one. -/
  isProgram : Bool
  /-- The parameter, if it is the body of a catch clause. -/
  caught : Option String
  /-- The bodies of loops that run in the frame of the scope, one pass after the other. -/
  repeated : List Stmt

namespace Level

def program (lexical vars : List String) (body : List Stmt) : Level :=
  ⟨⟨true, lexical, vars, body⟩, true, none, []⟩

def call (definition : Function) : Level :=
  ⟨Scope.function definition.params definition.body, false, none, []⟩

def block (body : List Stmt) : Level := ⟨Scope.block body, false, none, []⟩

def handler (param : String) (body : List Stmt) : Level :=
  ⟨Scope.block body, false, some param, []⟩

def loop (init : Option Stmt) (body : Stmt) : Level :=
  ⟨Scope.forLoop init body, false, none, if (Eval.loopNames init).isEmpty then [body] else []⟩

end Level

abbrev Context := List Level

def Context.repeating (body : Stmt) : Context → Context
  | [] => []
  | l :: ctx => { l with repeated := body :: l.repeated } :: ctx

namespace Eval

open Effect

def inside (ctx : Context) : Stmt → Context
  | .whileLoop _ body | .doWhile body _ => ctx.repeating body
  | .forLoop init _ _ body => .loop init body :: ctx
  | .block body => .block body :: ctx
  | _ => ctx

def tryIn (D : Context → Evaluator) (ctx : Context) (f : FrameRef) (body : List Stmt)
    (handler : Option (String × List Stmt)) (finalizer : Option (List Stmt)) :
    Effect Completion := do
  let result ← outcome (evalBlock (D (.block body :: ctx)) f body)
  let result ← handled (D (handler.elim ctx fun h => .handler h.1 h.2 :: ctx)) f handler result
  finish (D (finalizer.elim ctx fun body => .block body :: ctx)) f result finalizer

def stmtIn (D : Context → Evaluator) (ctx : Context) (f : FrameRef) : Stmt → Effect Completion
  | .tryCatch body handler finalizer => tryIn D ctx f body handler finalizer
  | t => evalStmt (D (inside ctx t)) f t

def callIn (host : Host) (D : Context → Evaluator) (ctx : Context) (f : FrameRef)
    (callee : Expr) (args : List Expr) : Effect Value := do
  match ← evalOperands (D ctx) f callee args with
  | (.builtin b, vs) => evalBuiltin host b vs
  | (.closure c, vs) => do
    let closure ← look fun m => m.closureAt c
    callClosure host (D (.call closure.definition :: ctx)) c vs
  | _ => fail (.notFunction (describe callee))

def exprIn (host : Host) (D : Context → Evaluator) (ctx : Context) (f : FrameRef) :
    Expr → Effect Value
  | .call callee args => callIn host D ctx f callee args
  | e => evalExpr host (D ctx) f e

/-- Moments of a run: a tree that is about to be evaluated in some context, frame and state, given
the evaluator of what lies deeper. -/
structure Moments where
  expr : Context → Evaluator → FrameRef → Expr → State → Prop
  stmt : Context → Evaluator → FrameRef → Stmt → State → Prop

/-- Fails a test on everything, which ends a run. -/
def halting : Evaluator := ⟨0, fun _ _ => fail (.testFailed ""), fun _ _ => fail (.testFailed "")⟩

open Classical in
/-- The evaluator to a depth of `n`, which keeps track of the open scopes; at the moments of `P` the
answer is that of `A`, and at the other spots of `Q` it halts. -/
noncomputable def watched (host : Host) (P : Moments) (A : Evaluator) (Q : Spots) :
    Nat → Context → Evaluator
  | 0, _ => silent
  | n + 1, ctx =>
    ⟨n,
      fun f e s =>
        if P.expr ctx (evaluator host n) f e s then A.expr f e s
        else bif Q.expr (evaluator host n) f e s then halting.expr f e s
        else exprIn host (watched host P A Q n) ctx f e s,
      fun f t s =>
        if P.stmt ctx (evaluator host n) f t s then A.stmt f t s
        else bif Q.stmt (evaluator host n) f t s then halting.stmt f t s
        else stmtIn (watched host P A Q n) ctx f t s⟩

section

variable {host : Host} {P : Moments} {A : Evaluator} {Q : Spots} {n : Nat} {ctx : Context}
  {f : FrameRef} {s : State}

theorem watched_expr {e : Expr} (h : ¬P.expr ctx (evaluator host n) f e s) :
    (watched host P A Q (n + 1) ctx).expr f e s =
      bif Q.expr (evaluator host n) f e s then halting.expr f e s
      else exprIn host (watched host P A Q n) ctx f e s :=
  if_neg h

theorem watched_stmt {t : Stmt} (h : ¬P.stmt ctx (evaluator host n) f t s) :
    (watched host P A Q (n + 1) ctx).stmt f t s =
      bif Q.stmt (evaluator host n) f t s then halting.stmt f t s
      else stmtIn (watched host P A Q n) ctx f t s :=
  if_neg h

end

end Eval

end SmallScript
