import SmallScript.Proofs.Printed.Token
import SmallScript.Proofs.Shape

namespace SmallScript

namespace Token

/-- The tokens that go on with an expression on the line before. -/
def continuing : List String := ["(", "[", "+", "-"]

inductive Terminates : Option Token → Token → Prop where
  | semicolon (next : Option Token) : Terminates next (word ";")
  | lineFeed {next : Option Token} (h : ∀ t ∈ next, ∀ w ∈ continuing, t ≠ word w) :
      Terminates next (word "\n")
  | nothing {next : Option Token} (h : ∀ t ∈ next, t = word "\x7d") : Terminates next (word "")

end Token

open Token

mutual

inductive Expr.Spelled : Expr → List Token → Prop where
  | ident (x : String) : Expr.Spelled (.ident x) [.word x]
  | number (x : Float) : Expr.Spelled (.number x) [.number x]
  | bool (b : Bool) : Expr.Spelled (.bool b) [.word (if b then "true" else "false")]
  | null : Expr.Spelled .null [.word "null"]
  | string (v : String) : Expr.Spelled (.string v) [.string v]
  | paren {e : Expr} {ts : List Token} (h : e.Spelled ts) :
      Expr.Spelled (.paren e) (bracketed "(" ")" ts)
  | array {items : List Expr} {tss : List (List Token)} (h : SpelledExprs items tss) :
      Expr.Spelled (.array items) (bracketed "[" "]" (separated tss))
  | object {ps : List (String × Expr)} {tss : List (List Token)} (h : SpelledProperties ps tss) :
      Expr.Spelled (.object ps) (bracketed "\x7b" "\x7d" (separated tss))
  | function {f : Function} {ts : List Token} (h : f.Spelled ts) : Expr.Spelled (.function f) ts
  | field {e : Expr} {ts : List Token} (h : e.Spelled ts) (x : String) :
      Expr.Spelled (.field e x) (ts ++ [.word ".", .word x])
  | index {e k : Expr} {ts us : List Token} (h : e.Spelled ts) (hk : k.Spelled us) :
      Expr.Spelled (.index e k) (ts ++ bracketed "[" "]" us)
  | call {e : Expr} {args : List Expr} {ts : List Token} {tss : List (List Token)}
      (h : e.Spelled ts) (hargs : SpelledExprs args tss) :
      Expr.Spelled (.call e args) (ts ++ bracketed "(" ")" (separated tss))
  | new {e : Expr} {args : List Expr} {ts : List Token} {tss : List (List Token)}
      (h : e.Spelled ts) (hargs : SpelledExprs args tss) :
      Expr.Spelled (.new e args) (.word "new" :: (ts ++ bracketed "(" ")" (separated tss)))
  | binary {l r : Expr} {ts us : List Token} (op : BinaryOp) (hl : l.Spelled ts)
      (hr : r.Spelled us) : Expr.Spelled (.binary op l r) (ts ++ .word op.symbol :: us)
  | unary {e : Expr} {ts : List Token} (op : UnaryOp) (h : e.Spelled ts) :
      Expr.Spelled (.unary op e) (.word op.symbol :: ts)
  | preIncrement {e : Expr} {ts : List Token} (h : e.Spelled ts) :
      Expr.Spelled (.update .preIncrement e) (.word "++" :: ts)
  | preDecrement {e : Expr} {ts : List Token} (h : e.Spelled ts) :
      Expr.Spelled (.update .preDecrement e) (.word "--" :: ts)
  | postIncrement {e : Expr} {ts : List Token} (h : e.Spelled ts) :
      Expr.Spelled (.update .postIncrement e) (ts ++ [.word "++"])
  | postDecrement {e : Expr} {ts : List Token} (h : e.Spelled ts) :
      Expr.Spelled (.update .postDecrement e) (ts ++ [.word "--"])
  | assign {l r : Expr} {ts us : List Token} (op : AssignOp) (hl : l.Spelled ts)
      (hr : r.Spelled us) : Expr.Spelled (.assign op l r) (ts ++ .word op.symbol :: us)
  | cond {c t f : Expr} {ts us vs : List Token} (hc : c.Spelled ts) (ht : t.Spelled us)
      (hf : f.Spelled vs) : Expr.Spelled (.cond c t f) (ts ++ .word "?" :: (us ++ .word ":" :: vs))

inductive SpelledExprs : List Expr → List (List Token) → Prop where
  | nil : SpelledExprs [] []
  | cons {e : Expr} {es : List Expr} {ts : List Token} {tss : List (List Token)}
      (h : e.Spelled ts) (hes : SpelledExprs es tss) : SpelledExprs (e :: es) (ts :: tss)

inductive SpelledProperties : List (String × Expr) → List (List Token) → Prop where
  | nil : SpelledProperties [] []
  | cons (key : String) {e : Expr} {ps : List (String × Expr)} {ts : List Token}
      {tss : List (List Token)} (h : e.Spelled ts) (hps : SpelledProperties ps tss) :
      SpelledProperties ((key, e) :: ps) ((.string key :: .word ":" :: ts) :: tss)

inductive SpelledOption : Option Expr → List Token → Prop where
  | none : SpelledOption none []
  | some {e : Expr} {ts : List Token} (h : e.Spelled ts) : SpelledOption (some e) ts

inductive Function.Spelled : Function → List Token → Prop where
  | mk (name : Option String) (params : List String) {body : List Stmt} {ts : List Token}
      (h : SpelledStmts body (some (.word "\x7d")) ts) :
      Function.Spelled (.mk name params body) (.word "function" :: (nameTokens name ++
        (bracketed "(" ")" (separated (params.map fun x => [.word x])) ++
          bracketed "\x7b" "\x7d" ts)))

inductive SpelledDeclarators : List (String × Option Expr) → List (List Token) → Prop where
  | nil : SpelledDeclarators [] []
  | bare (x : String) {ds : List (String × Option Expr)} {tss : List (List Token)}
      (hds : SpelledDeclarators ds tss) : SpelledDeclarators ((x, none) :: ds) ([.word x] :: tss)
  | init (x : String) {e : Expr} {ds : List (String × Option Expr)} {ts : List Token}
      {tss : List (List Token)} (h : e.Spelled ts) (hds : SpelledDeclarators ds tss) :
      SpelledDeclarators ((x, some e) :: ds) ((.word x :: .word "=" :: ts) :: tss)

inductive Stmt.Spelled : Stmt → Option Token → List Token → Prop where
  | decl {next : Option Token} {term : Token} (kind : DeclKind)
      {ds : List (String × Option Expr)} {tss : List (List Token)}
      (h : SpelledDeclarators ds tss) (hend : Terminates next term) :
      Stmt.Spelled (.decl kind ds) next (.word kind.keyword :: (separated tss ++ [term]))
  | function {next : Option Token} {f : Function} {ts : List Token} (h : f.Spelled ts) :
      Stmt.Spelled (.function f) next ts
  | ifThen {next : Option Token} {c : Expr} {t : Stmt} {ts us : List Token} (hc : c.Spelled ts)
      (ht : t.Spelled next us) :
      Stmt.Spelled (.ifElse c t none) next (.word "if" :: (bracketed "(" ")" ts ++ us))
  | ifElse {next : Option Token} {c : Expr} {t f : Stmt} {ts us vs : List Token}
      (hc : c.Spelled ts) (ht : t.Spelled (some (.word "else")) us) (hf : f.Spelled next vs) :
      Stmt.Spelled (.ifElse c t (some f)) next
        (.word "if" :: (bracketed "(" ")" ts ++ (us ++ .word "else" :: vs)))
  | whileLoop {next : Option Token} {c : Expr} {body : Stmt} {ts us : List Token}
      (hc : c.Spelled ts) (h : body.Spelled next us) :
      Stmt.Spelled (.whileLoop c body) next (.word "while" :: (bracketed "(" ")" ts ++ us))
  | doWhile {next : Option Token} {term : Token} {body : Stmt} {c : Expr} {ts us : List Token}
      (h : body.Spelled (some (.word "while")) ts) (hc : c.Spelled us)
      (hend : Terminates next term) :
      Stmt.Spelled (.doWhile body c) next
        (.word "do" :: (ts ++ .word "while" :: (bracketed "(" ")" us ++ [term])))
  | forLoop {next : Option Token} {init : Option Stmt} {test update : Option Expr} {body : Stmt}
      {ts us vs ws : List Token} (hinit : SpelledInit init ts) (htest : SpelledOption test us)
      (hupdate : SpelledOption update vs) (h : body.Spelled next ws) :
      Stmt.Spelled (.forLoop init test update body) next (.word "for" ::
        (bracketed "(" ")" (ts ++ .word ";" :: (us ++ .word ";" :: vs)) ++ ws))
  | block {next : Option Token} {body : List Stmt} {ts : List Token}
      (h : SpelledStmts body (some (.word "\x7d")) ts) :
      Stmt.Spelled (.block body) next (bracketed "\x7b" "\x7d" ts)
  | tryCatch {next : Option Token} {body : List Stmt} {handler : Option (String × List Stmt)}
      {finalizer : Option (List Stmt)} {ts us vs : List Token}
      (h : SpelledStmts body (some (.word "\x7d")) ts) (hhandler : SpelledHandler handler us)
      (hfinalizer : SpelledFinalizer finalizer vs) :
      Stmt.Spelled (.tryCatch body handler finalizer) next
        (.word "try" :: (bracketed "\x7b" "\x7d" ts ++ (us ++ vs)))
  | breakLoop {next : Option Token} {term : Token} (hend : Terminates next term) :
      Stmt.Spelled .breakLoop next [.word "break", term]
  | continueLoop {next : Option Token} {term : Token} (hend : Terminates next term) :
      Stmt.Spelled .continueLoop next [.word "continue", term]
  | returnValue {next : Option Token} {term : Token} {e : Option Expr} {ts : List Token}
      (h : SpelledOption e ts) (hend : Terminates next term) :
      Stmt.Spelled (.returnValue e) next (.word "return" :: (ts ++ [term]))
  | throw {next : Option Token} {term : Token} {e : Expr} {ts : List Token} (h : e.Spelled ts)
      (hend : Terminates next term) : Stmt.Spelled (.throw e) next (.word "throw" :: (ts ++ [term]))
  | expr {next : Option Token} {term : Token} {e : Expr} {ts : List Token} (h : e.Spelled ts)
      (hend : Terminates next term) : Stmt.Spelled (.expr e) next (ts ++ [term])
  | empty (next : Option Token) : Stmt.Spelled .empty next [.word ";"]

inductive SpelledHandler : Option (String × List Stmt) → List Token → Prop where
  | none : SpelledHandler none []
  | some (x : String) {body : List Stmt} {ts : List Token}
      (h : SpelledStmts body (some (.word "\x7d")) ts) :
      SpelledHandler (some (x, body))
        (.word "catch" :: (bracketed "(" ")" [.word x] ++ bracketed "\x7b" "\x7d" ts))

inductive SpelledFinalizer : Option (List Stmt) → List Token → Prop where
  | none : SpelledFinalizer none []
  | some {body : List Stmt} {ts : List Token} (h : SpelledStmts body (some (.word "\x7d")) ts) :
      SpelledFinalizer (some body) (.word "finally" :: bracketed "\x7b" "\x7d" ts)

inductive SpelledInit : Option Stmt → List Token → Prop where
  | none : SpelledInit none []
  | decl (kind : DeclKind) {ds : List (String × Option Expr)} {tss : List (List Token)}
      (h : SpelledDeclarators ds tss) :
      SpelledInit (some (.decl kind ds)) (.word kind.keyword :: separated tss)
  | expr {e : Expr} {ts : List Token} (h : e.Spelled ts) : SpelledInit (some (.expr e)) ts

inductive SpelledStmts : List Stmt → Option Token → List Token → Prop where
  | nil (next : Option Token) : SpelledStmts [] next []
  | cons {next : Option Token} {t : Stmt} {rest : List Stmt} {ts us : List Token}
      (h : t.Spelled (us.head?.or next) ts) (hrest : SpelledStmts rest next us) :
      SpelledStmts (t :: rest) next (ts ++ us)

end

/-- The text spells the program, with single spaces between its tokens. -/
def Program.Spells (t : List Stmt) (s : List Char) : Prop :=
  ∃ ts, SpelledStmts t none ts ∧ Joined ts s

mutual

theorem Expr.spelled : (e : Expr) → e.Every .shape → e.Spelled e.tokens
  | .ident x, _ => .ident x
  | .number x, _ => .number x
  | .bool b, _ => .bool b
  | .null, _ => .null
  | .string v, _ => .string v
  | .paren e, h => .paren (e.spelled h.2)
  | .array items, h => .array (spelled_exprs items h.2)
  | .object ps, h => .object (spelled_properties ps h.2)
  | .function f, h => .function (f.spelled h.2)
  | .field e x, h => .field (e.spelled h.2) x
  | .index e k, h => .index (e.spelled h.2.1) (k.spelled h.2.2)
  | .call e args, h => .call (e.spelled h.2.1) (spelled_exprs args h.2.2)
  | .new e args, h => .new (e.spelled h.2.1) (spelled_exprs args h.2.2)
  | .binary op l r, h => .binary op (l.spelled h.2.1) (r.spelled h.2.2)
  | .unary op e, h => .unary op (e.spelled h.2)
  | .update .preIncrement e, h => .preIncrement (e.spelled h.2)
  | .update .preDecrement e, h => .preDecrement (e.spelled h.2)
  | .update .postIncrement e, h => .postIncrement (e.spelled h.2)
  | .update .postDecrement e, h => .postDecrement (e.spelled h.2)
  | .assign op l r, h => .assign op (l.spelled h.2.1) (r.spelled h.2.2)
  | .cond c t f, h => .cond (c.spelled h.2.1) (t.spelled h.2.2.1) (f.spelled h.2.2.2)

theorem spelled_exprs : (es : List Expr) → everyExpr .shape es → SpelledExprs es (exprTokens es)
  | [], _ => .nil
  | e :: es, h => .cons (e.spelled h.1) (spelled_exprs es h.2)

theorem spelled_properties : (ps : List (String × Expr)) → everyProperty .shape ps →
    SpelledProperties ps (propertyTokens ps)
  | [], _ => .nil
  | (key, e) :: ps, h => .cons key (e.spelled h.1) (spelled_properties ps h.2)

theorem spelled_option : (o : Option Expr) → everyOption .shape o → SpelledOption o (optionTokens o)
  | none, _ => .none
  | some e, h => .some (e.spelled h)

theorem Function.spelled : (f : Function) → f.Every .shape → f.Spelled f.tokens
  | .mk name params body, h => .mk name params (spelled_stmts body h _)

theorem spelled_declarators : (ds : List (String × Option Expr)) → everyDeclarator .shape ds →
    SpelledDeclarators ds (declaratorTokens ds)
  | [], _ => .nil
  | (x, none) :: ds, h => .bare x (spelled_declarators ds h.2)
  | (x, some e) :: ds, h => .init x (e.spelled h.1) (spelled_declarators ds h.2)

theorem Stmt.spelled : (t : Stmt) → t.Every .shape → (next : Option Token) →
    t.Spelled next t.tokens
  | .decl kind ds, h, next => .decl kind (spelled_declarators ds h.2) (.semicolon next)
  | .function f, h, _ => .function (f.spelled h.2)
  | .ifElse c t none, h, next => by
      have ht := Stmt.Spelled.ifThen (c.spelled h.2.1) (t.spelled h.2.2.1 next)
      rw [Stmt.tokens, branchTokens, List.append_nil]
      exact ht
  | .ifElse c t (some f), h, next =>
      .ifElse (c.spelled h.2.1) (t.spelled h.2.2.1 _) (f.spelled h.2.2.2 next)
  | .whileLoop c body, h, next => .whileLoop (c.spelled h.2.1) (body.spelled h.2.2 next)
  | .doWhile body c, h, next =>
      .doWhile (body.spelled h.2.1 _) (c.spelled h.2.2) (.semicolon next)
  | .forLoop init test update body, h, next =>
      .forLoop (spelled_init init h.1 h.2.1) (spelled_option test h.2.2.1)
        (spelled_option update h.2.2.2.1) (body.spelled h.2.2.2.2 next)
  | .block body, h, _ => .block (spelled_stmts body h.2 _)
  | .tryCatch body handler finalizer, h, _ => .tryCatch (spelled_stmts body h.2.1 _)
      (spelled_handler handler h.2.2.1) (spelled_finalizer finalizer h.2.2.2)
  | .breakLoop, _, next => .breakLoop (.semicolon next)
  | .continueLoop, _, next => .continueLoop (.semicolon next)
  | .returnValue e, h, next => .returnValue (spelled_option e h.2) (.semicolon next)
  | .throw e, h, next => .throw (e.spelled h.2) (.semicolon next)
  | .expr e, h, next => .expr (e.spelled h.2.2) (.semicolon next)
  | .empty, _, next => .empty next

theorem spelled_handler : (c : Option (String × List Stmt)) → everyHandler .shape c →
    SpelledHandler c (handlerTokens c)
  | none, _ => .none
  | some (x, body), h => .some x (spelled_stmts body h _)

theorem spelled_finalizer : (f : Option (List Stmt)) → everyFinalizer .shape f →
    SpelledFinalizer f (finalizerTokens f)
  | none, _ => .none
  | some body, h => .some (spelled_stmts body h _)

theorem spelled_init : (init : Option Stmt) → (∀ t ∈ init, t.isInit = true) →
    everyInit .shape init → SpelledInit init (initTokens init)
  | none, _, _ => .none
  | some (.decl kind ds), _, h => .decl kind (spelled_declarators ds h.2)
  | some (.expr e), _, h => .expr (e.spelled h)
  | some (.function _), hinit, _ | some (.ifElse _ _ _), hinit, _
  | some (.whileLoop _ _), hinit, _ | some (.doWhile _ _), hinit, _
  | some (.forLoop _ _ _ _), hinit, _ | some (.block _), hinit, _
  | some (.tryCatch _ _ _), hinit, _ | some .breakLoop, hinit, _
  | some .continueLoop, hinit, _ | some (.returnValue _), hinit, _
  | some (.throw _), hinit, _ | some .empty, hinit, _ =>
      (Bool.false_ne_true (hinit _ rfl)).elim

theorem spelled_stmts : (ts : List Stmt) → everyStmt .shape ts → (next : Option Token) →
    SpelledStmts ts next (stmtTokens ts)
  | [], _, next => .nil next
  | t :: ts, h, next => .cons (t.spelled h.1 _) (spelled_stmts ts h.2 next)

end

/-- A rendering is the spelling with all the semicolons. -/
theorem Program.Renders.spells {t : List Stmt} {s : List Char} (h : Program.Renders t s)
    (hshape : everyStmt .shape t) : Program.Spells t s :=
  ⟨stmtTokens t, spelled_stmts t hshape none, h⟩

end SmallScript
