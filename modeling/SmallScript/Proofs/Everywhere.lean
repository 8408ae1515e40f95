import SmallScript.Tree

namespace SmallScript

structure Everywhere where
  expr : Expr → Prop
  stmt : Stmt → Prop
  /-- Of the expression of an expression statement. The head of a `for` loop holds none. -/
  lone : Expr → Prop

variable (P : Everywhere)

mutual

def Expr.Every : Expr → Prop
  | .ident x => P.expr (.ident x)
  | .number x => P.expr (.number x)
  | .bool b => P.expr (.bool b)
  | .null => P.expr .null
  | .string s => P.expr (.string s)
  | .paren e => P.expr (.paren e) ∧ e.Every
  | .array items => P.expr (.array items) ∧ everyExpr items
  | .object properties => P.expr (.object properties) ∧ everyProperty properties
  | .function f => P.expr (.function f) ∧ f.Every
  | .field e x => P.expr (.field e x) ∧ e.Every
  | .index e k => P.expr (.index e k) ∧ e.Every ∧ k.Every
  | .call e args => P.expr (.call e args) ∧ e.Every ∧ everyExpr args
  | .new e args => P.expr (.new e args) ∧ e.Every ∧ everyExpr args
  | .binary op l r => P.expr (.binary op l r) ∧ l.Every ∧ r.Every
  | .unary op e => P.expr (.unary op e) ∧ e.Every
  | .update op e => P.expr (.update op e) ∧ e.Every
  | .assign op l r => P.expr (.assign op l r) ∧ l.Every ∧ r.Every
  | .cond c t f => P.expr (.cond c t f) ∧ c.Every ∧ t.Every ∧ f.Every

def everyExpr : List Expr → Prop
  | [] => True
  | e :: es => e.Every ∧ everyExpr es

def everyProperty : List (String × Expr) → Prop
  | [] => True
  | (_, e) :: ps => e.Every ∧ everyProperty ps

def everyOption : Option Expr → Prop
  | none => True
  | some e => e.Every

def Function.Every : Function → Prop
  | .mk _ _ body => everyStmt body

def everyDeclarator : List (String × Option Expr) → Prop
  | [] => True
  | (_, init) :: ds => everyOption init ∧ everyDeclarator ds

def Stmt.Every : Stmt → Prop
  | .decl kind ds => P.stmt (.decl kind ds) ∧ everyDeclarator ds
  | .function f => P.stmt (.function f) ∧ f.Every
  | .ifElse c t f => P.stmt (.ifElse c t f) ∧ c.Every ∧ t.Every ∧ everyBranch f
  | .whileLoop c body => P.stmt (.whileLoop c body) ∧ c.Every ∧ body.Every
  | .doWhile body c => P.stmt (.doWhile body c) ∧ body.Every ∧ c.Every
  | .forLoop init test update body => P.stmt (.forLoop init test update body) ∧ everyInit init ∧
      everyOption test ∧ everyOption update ∧ body.Every
  | .block body => P.stmt (.block body) ∧ everyStmt body
  | .tryCatch body handler finalizer => P.stmt (.tryCatch body handler finalizer) ∧ everyStmt body ∧
      everyHandler handler ∧ everyFinalizer finalizer
  | .breakLoop => P.stmt .breakLoop
  | .continueLoop => P.stmt .continueLoop
  | .returnValue e => P.stmt (.returnValue e) ∧ everyOption e
  | .throw e => P.stmt (.throw e) ∧ e.Every
  | .expr e => P.stmt (.expr e) ∧ P.lone e ∧ e.Every
  | .empty => P.stmt .empty

def everyBranch : Option Stmt → Prop
  | none => True
  | some t => t.Every

def everyHandler : Option (String × List Stmt) → Prop
  | none => True
  | some (_, body) => everyStmt body

def everyFinalizer : Option (List Stmt) → Prop
  | none => True
  | some body => everyStmt body

def everyInit : Option Stmt → Prop
  | none => True
  | some (.expr e) => e.Every
  | some t => t.Every

def everyStmt : List Stmt → Prop
  | [] => True
  | t :: ts => t.Every ∧ everyStmt ts

end

variable {P}

theorem everyExpr_iff {items : List Expr} : everyExpr P items ↔ ∀ e ∈ items, e.Every P := by
  induction items with
  | nil => simp [everyExpr]
  | cons e items ih => rw [everyExpr, ih, List.forall_mem_cons]

theorem everyProperty_iff {ps : List (String × Expr)} :
    everyProperty P ps ↔ ∀ p ∈ ps, p.2.Every P := by
  induction ps with
  | nil => simp [everyProperty]
  | cons p ps ih => rw [everyProperty, ih, List.forall_mem_cons]

theorem everyDeclarator_iff {ds : List (String × Option Expr)} :
    everyDeclarator P ds ↔ ∀ d ∈ ds, everyOption P d.2 := by
  induction ds with
  | nil => simp [everyDeclarator]
  | cons d ds ih => rw [everyDeclarator, ih, List.forall_mem_cons]

theorem everyOption_iff {o : Option Expr} : everyOption P o ↔ ∀ e ∈ o, e.Every P := by
  cases o with
  | none => simp [everyOption]
  | some e => simp [everyOption]

theorem everyStmt_iff {ts : List Stmt} : everyStmt P ts ↔ ∀ t ∈ ts, t.Every P := by
  induction ts with
  | nil => simp [everyStmt]
  | cons t ts ih => rw [everyStmt, ih, List.forall_mem_cons]

theorem Expr.Every.here {e : Expr} (h : e.Every P) : P.expr e := by
  cases e <;> first | exact h | exact h.1

theorem Stmt.Every.here {t : Stmt} (h : t.Every P) : P.stmt t := by
  cases t <;> first | exact h | exact h.1

/-- What holds of a tree in the sense of `P` has what `Q` asks of its head. -/
structure Everywhere.Implies (P Q : Everywhere) : Prop where
  expr : ∀ e : Expr, e.Every P → Q.expr e
  stmt : ∀ t : Stmt, t.Every P → Q.stmt t
  lone : ∀ e, P.lone e → Q.lone e

variable {Q : Everywhere}

mutual

theorem Expr.Every.imp (hq : P.Implies Q) : (e : Expr) → e.Every P → e.Every Q
  | .ident _, h | .number _, h | .bool _, h | .null, h | .string _, h => hq.expr _ h
  | .paren e, h => ⟨hq.expr _ h, Expr.Every.imp hq e h.2⟩
  | .array items, h => ⟨hq.expr _ h, everyExpr_imp hq items h.2⟩
  | .object properties, h => ⟨hq.expr _ h, everyProperty_imp hq properties h.2⟩
  | .function f, h => ⟨hq.expr _ h, Function.Every.imp hq f h.2⟩
  | .field e _, h => ⟨hq.expr _ h, Expr.Every.imp hq e h.2⟩
  | .index e k, h => ⟨hq.expr _ h, Expr.Every.imp hq e h.2.1, Expr.Every.imp hq k h.2.2⟩
  | .call e args, h => ⟨hq.expr _ h, Expr.Every.imp hq e h.2.1, everyExpr_imp hq args h.2.2⟩
  | .new e args, h => ⟨hq.expr _ h, Expr.Every.imp hq e h.2.1, everyExpr_imp hq args h.2.2⟩
  | .binary _ l r, h => ⟨hq.expr _ h, Expr.Every.imp hq l h.2.1, Expr.Every.imp hq r h.2.2⟩
  | .unary _ e, h => ⟨hq.expr _ h, Expr.Every.imp hq e h.2⟩
  | .update _ e, h => ⟨hq.expr _ h, Expr.Every.imp hq e h.2⟩
  | .assign _ l r, h => ⟨hq.expr _ h, Expr.Every.imp hq l h.2.1, Expr.Every.imp hq r h.2.2⟩
  | .cond c t f, h =>
      ⟨hq.expr _ h, Expr.Every.imp hq c h.2.1, Expr.Every.imp hq t h.2.2.1,
        Expr.Every.imp hq f h.2.2.2⟩

theorem everyExpr_imp (hq : P.Implies Q) :
    (items : List Expr) → everyExpr P items → everyExpr Q items
  | [], _ => trivial
  | e :: items, h => ⟨Expr.Every.imp hq e h.1, everyExpr_imp hq items h.2⟩

theorem everyProperty_imp (hq : P.Implies Q) :
    (ps : List (String × Expr)) → everyProperty P ps → everyProperty Q ps
  | [], _ => trivial
  | (_, e) :: ps, h => ⟨Expr.Every.imp hq e h.1, everyProperty_imp hq ps h.2⟩

theorem everyOption_imp (hq : P.Implies Q) :
    (o : Option Expr) → everyOption P o → everyOption Q o
  | none, _ => trivial
  | some e, h => Expr.Every.imp hq e h

theorem Function.Every.imp (hq : P.Implies Q) : (f : Function) → f.Every P → f.Every Q
  | .mk _ _ body, h => everyStmt_imp hq body h

theorem everyDeclarator_imp (hq : P.Implies Q) :
    (ds : List (String × Option Expr)) → everyDeclarator P ds → everyDeclarator Q ds
  | [], _ => trivial
  | (_, init) :: ds, h => ⟨everyOption_imp hq init h.1, everyDeclarator_imp hq ds h.2⟩

theorem Stmt.Every.imp (hq : P.Implies Q) : (t : Stmt) → t.Every P → t.Every Q
  | .breakLoop, h | .continueLoop, h | .empty, h => hq.stmt _ h
  | .decl _ ds, h => ⟨hq.stmt _ h, everyDeclarator_imp hq ds h.2⟩
  | .function f, h => ⟨hq.stmt _ h, Function.Every.imp hq f h.2⟩
  | .ifElse c t f, h =>
      ⟨hq.stmt _ h, Expr.Every.imp hq c h.2.1, Stmt.Every.imp hq t h.2.2.1,
        everyBranch_imp hq f h.2.2.2⟩
  | .whileLoop c body, h => ⟨hq.stmt _ h, Expr.Every.imp hq c h.2.1, Stmt.Every.imp hq body h.2.2⟩
  | .doWhile body c, h => ⟨hq.stmt _ h, Stmt.Every.imp hq body h.2.1, Expr.Every.imp hq c h.2.2⟩
  | .forLoop init test update body, h =>
      ⟨hq.stmt _ h, everyInit_imp hq init h.2.1, everyOption_imp hq test h.2.2.1,
        everyOption_imp hq update h.2.2.2.1, Stmt.Every.imp hq body h.2.2.2.2⟩
  | .block body, h => ⟨hq.stmt _ h, everyStmt_imp hq body h.2⟩
  | .tryCatch body handler finalizer, h =>
      ⟨hq.stmt _ h, everyStmt_imp hq body h.2.1, everyHandler_imp hq handler h.2.2.1,
        everyFinalizer_imp hq finalizer h.2.2.2⟩
  | .returnValue e, h => ⟨hq.stmt _ h, everyOption_imp hq e h.2⟩
  | .throw e, h => ⟨hq.stmt _ h, Expr.Every.imp hq e h.2⟩
  | .expr e, h => ⟨hq.stmt _ h, hq.lone _ h.2.1, Expr.Every.imp hq e h.2.2⟩

theorem everyBranch_imp (hq : P.Implies Q) :
    (t : Option Stmt) → everyBranch P t → everyBranch Q t
  | none, _ => trivial
  | some t, h => Stmt.Every.imp hq t h

theorem everyHandler_imp (hq : P.Implies Q) :
    (c : Option (String × List Stmt)) → everyHandler P c → everyHandler Q c
  | none, _ => trivial
  | some (_, body), h => everyStmt_imp hq body h

theorem everyFinalizer_imp (hq : P.Implies Q) :
    (body : Option (List Stmt)) → everyFinalizer P body → everyFinalizer Q body
  | none, _ => trivial
  | some body, h => everyStmt_imp hq body h

theorem everyInit_imp (hq : P.Implies Q) :
    (init : Option Stmt) → everyInit P init → everyInit Q init
  | none, _ => trivial
  | some (.expr e), h => Expr.Every.imp hq e h
  | some t, h => by
      cases t with
      | expr e => exact Expr.Every.imp hq e h
      | _ => exact Stmt.Every.imp hq _ h

theorem everyStmt_imp (hq : P.Implies Q) : (ts : List Stmt) → everyStmt P ts → everyStmt Q ts
  | [], _ => trivial
  | t :: ts, h => ⟨Stmt.Every.imp hq t h.1, everyStmt_imp hq ts h.2⟩

end

end SmallScript
