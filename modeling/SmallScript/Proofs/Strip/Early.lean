import SmallScript.Early
import SmallScript.Proofs.Strip.Tree

namespace SmallScript

theorem Expr.isTarget_strip : (e : Expr) → e.strip.isTarget = e.isTarget
  | .paren e => e.isTarget_strip
  | .ident _ | .number _ | .bool _ | .null | .string _ | .array _ | .object _ | .function _
  | .field _ _ | .index _ _ | .call _ _ | .new _ _ | .binary _ _ _ | .unary _ _ | .update _ _
  | .assign _ _ _ | .cond _ _ _ => rfl

namespace Early

theorem checkExpr_stripOperand (op : UnaryOp) (e b : Expr) :
    checkExpr (op.stripOperand e b) = checkExpr b := by
  rw [UnaryOp.stripOperand]
  split
  · rfl
  · rfl

mutual

theorem checkExpr_strip : (e : Expr) → checkExpr e.strip = checkExpr e
  | .ident _ | .number _ | .bool _ | .null | .string _ => rfl
  | .paren e => checkExpr_strip e
  | .array items => checkExprs_strip items
  | .object ps => checkProperties_strip ps
  | .function f => checkFunction_strip f
  | .field e _ => checkExpr_strip e
  | .index e k => by simp only [Expr.strip, checkExpr, checkExpr_strip e, checkExpr_strip k]
  | .call e args => by simp only [Expr.strip, checkExpr, checkExpr_strip e, checkExprs_strip args]
  | .new e args => by simp only [Expr.strip, checkExpr, checkExpr_strip e, checkExprs_strip args]
  | .binary _ l r => by simp only [Expr.strip, checkExpr, checkExpr_strip l, checkExpr_strip r]
  | .unary op e => (checkExpr_stripOperand op e e.strip).trans (checkExpr_strip e)
  | .update _ e => by simp only [Expr.strip, checkExpr, e.isTarget_strip, checkExpr_strip e]
  | .assign _ l r => by
      simp only [Expr.strip, checkExpr, l.isTarget_strip, checkExpr_strip l, checkExpr_strip r]
  | .cond c t f => by
      simp only [Expr.strip, checkExpr, checkExpr_strip c, checkExpr_strip t, checkExpr_strip f]

theorem checkExprs_strip : (es : List Expr) → checkExprs (stripExprs es) = checkExprs es
  | [] => rfl
  | e :: es => by simp only [stripExprs, checkExprs, checkExpr_strip e, checkExprs_strip es]

theorem checkProperties_strip : (ps : List (String × Expr)) →
    checkProperties (stripProperties ps) = checkProperties ps
  | [] => rfl
  | (_, e) :: ps => by
      simp only [stripProperties, checkProperties, checkExpr_strip e, checkProperties_strip ps]

theorem checkOptional_strip : (o : Option Expr) → checkOptional (stripOption o) = checkOptional o
  | none => rfl
  | some e => checkExpr_strip e

theorem checkFunction_strip : (f : Function) → checkFunction f.strip = checkFunction f
  | .mk _ params body => congrArg (inFunction params) (checkStmts_strip body)

theorem checkDeclarators_strip (kind : DeclKind) : (ds : List (String × Option Expr)) →
    checkDeclarators kind (stripDeclarators ds) = checkDeclarators kind ds
  | [] => rfl
  | (_, init) :: ds => by
      have hsome : (stripOption init).isSome = init.isSome := by cases init <;> rfl
      simp only [stripDeclarators, checkDeclarators, checkOptional_strip init, hsome,
        checkDeclarators_strip kind ds]

theorem checkStmt_strip : (t : Stmt) → checkStmt t.strip = checkStmt t
  | .decl kind ds => checkDeclarators_strip kind ds
  | .function f => by simp only [Stmt.strip, checkStmt, f.strip_name, checkFunction_strip f]
  | .ifElse c t none => by
      simp only [Stmt.strip, stripBranch, checkStmt, checkExpr_strip c, checkStmt_strip t]
  | .ifElse c t (some f) => by
      simp only [Stmt.strip, stripBranch, checkStmt, checkExpr_strip c, checkStmt_strip t,
        checkStmt_strip f]
  | .whileLoop c body => by
      simp only [Stmt.strip, checkStmt, checkExpr_strip c, checkStmt_strip body]
  | .doWhile body c => by
      simp only [Stmt.strip, checkStmt, checkExpr_strip c, checkStmt_strip body]
  | .forLoop none test update body => by
      simp only [Stmt.strip, stripBranch, checkStmt, checkOptional_strip test,
        checkOptional_strip update, checkStmt_strip body]
  | .forLoop (some t) test update body => by
      simp only [Stmt.strip, stripBranch, checkStmt, checkStmt_strip t, checkOptional_strip test,
        checkOptional_strip update, checkStmt_strip body]
  | .block body => congrArg inScope (checkStmts_strip body)
  | .tryCatch body none none => by simp only [Stmt.strip, stripHandler, stripFinalizer, checkStmt,
      checkStmts_strip body]
  | .tryCatch body (some (_, handler)) none => by
      simp only [Stmt.strip, stripHandler, stripFinalizer, checkStmt, checkStmts_strip body,
        checkStmts_strip handler]
  | .tryCatch body none (some finalizer) => by
      simp only [Stmt.strip, stripHandler, stripFinalizer, checkStmt, checkStmts_strip body,
        checkStmts_strip finalizer]
  | .tryCatch body (some (_, handler)) (some finalizer) => by
      simp only [Stmt.strip, stripHandler, stripFinalizer, checkStmt, checkStmts_strip body,
        checkStmts_strip handler, checkStmts_strip finalizer]
  | .breakLoop | .continueLoop | .empty => rfl
  | .returnValue e => by simp only [Stmt.strip, checkStmt, checkOptional_strip e]
  | .throw e => checkExpr_strip e
  | .expr e => checkExpr_strip e

theorem checkStmts_strip : (ts : List Stmt) → checkStmts (stripStmts ts) = checkStmts ts
  | [] => rfl
  | t :: ts => by simp only [stripStmts, checkStmts, checkStmt_strip t, checkStmts_strip ts]

end

theorem analyze_strip (program : List Stmt) : analyze (stripStmts program) = analyze program := by
  funext a
  simp only [analyze, checkStmts_strip]

end Early

end SmallScript
