import SmallScript.Proofs.Strip.Early
import SmallScript.Proofs.Strip.Mirror

namespace SmallScript.Eval

open Effect

/-- On trees without their parentheses `E` mirrors what `D` does on the trees. -/
structure Mirrored (E D : Evaluator) : Prop where
  fuel : E.fuel = D.fuel
  expr : ∀ f e, Mirrors (E.expr f e.strip) (D.expr f e)
  stmt : ∀ f t, Mirrors (E.stmt f t.strip) (D.stmt f t)
  paren : ∀ f e, E.expr f (.paren e) = E.expr f e

namespace Mirrored

variable {host : Host} {E D : Evaluator}

theorem evalList (h : Mirrored E D) (f : FrameRef) (es : List Expr) :
    Mirrors (evalList E f (stripExprs es)) (evalList D f es) := by
  induction es with
  | nil => exact mirrors_pure []
  | cons e es ih =>
      exact (h.expr f e).bind fun v => ih.bind fun vs => mirrors_pure (v :: vs)

theorem evalProperties (h : Mirrored E D) (f : FrameRef) (t : Table Value)
    (ps : List (String × Expr)) :
    Mirrors (evalProperties E f t (stripProperties ps)) (evalProperties D f t ps) := by
  induction ps generalizing t with
  | nil => exact mirrors_pure t
  | cons p ps ih => exact (h.expr f p.2).bind fun v => ih (t.set p.1 v)

theorem evalTarget (h : Mirrored E D) (f : FrameRef) :
    (e : Expr) → Mirrors (evalTarget E f e.strip) (evalTarget D f e)
  | .paren e => h.evalTarget f e
  | .ident _ => mirrors_pure _
  | .field e _ => (h.expr f e).bind fun _ => mirrors_pure _
  | .index e k =>
      (h.expr f e).bind fun _ => (h.expr f k).bind fun v =>
        (mirrors_textOf v).bind fun _ => mirrors_pure _
  | .number _ | .bool _ | .null | .string _ | .array _ | .object _ | .function _ | .call _ _
  | .new _ _ | .binary _ _ _ | .unary _ _ | .update _ _ | .assign _ _ _ | .cond _ _ _ =>
      mirrors_fail _

theorem evalUpdate (h : Mirrored E D) (f : FrameRef) (op : UpdateOp) (e : Expr) :
    Mirrors (evalUpdate E f op e.strip) (evalUpdate D f op e) := by
  refine (h.evalTarget f e).bind fun target => ?_
  refine (mirrors_read f target).bind fun old => ?_
  refine (mirrors_look fun m => m.toNumber_strip old).bind fun x => ?_
  exact (mirrors_write f _ target).bind fun _ => mirrors_pure _

theorem evalAssign (h : Mirrored E D) (f : FrameRef) (op : AssignOp) (l r : Expr) :
    Mirrors (evalAssign E f op l.strip r.strip) (evalAssign D f op l r) := by
  refine (h.evalTarget f l).bind fun target => ?_
  have hstore (v : Value) : Mirrors (do target.write f v; return v) (do target.write f v; return v) :=
    (mirrors_write f v target).bind fun _ => mirrors_pure v
  cases op with
  | set => exact (h.expr f r).bind hstore
  | _ =>
      refine (mirrors_read f target).bind fun old => ?_
      refine (h.expr f r).bind fun new => ?_
      exact (mirrors_look fun m => m.compound_strip _ old new).bind hstore

theorem evalBinary (h : Mirrored E D) (f : FrameRef) (op : BinaryOp) (l r : Expr) :
    Mirrors (evalBinary E f op l.strip r.strip) (evalBinary D f op l r) := by
  have hr := h.expr f r
  refine (h.expr f l).bind fun v => ?_
  cases op with
  | and => cases v.truthy with
    | true => exact hr
    | false => exact mirrors_pure v
  | or => cases v.truthy with
    | true => exact mirrors_pure v
    | false => exact hr
  | _ => exact hr.bind fun w => mirrors_query fun m => m.binary_strip _ v w

theorem stripOperand (h : Mirrored E D) (f : FrameRef) (op : UnaryOp) (e : Expr) :
    Mirrors (E.expr f (op.stripOperand e e.strip)) (D.expr f e) := by
  rw [UnaryOp.stripOperand]
  split
  · rw [h.paren]
    exact h.expr f e
  · exact h.expr f e

theorem evalUnary_eq {op : UnaryOp} {e : Expr} (hname : op = .typeOf → e.isName = false)
    (f : FrameRef) :
    Eval.evalUnary D f op e = D.expr f e >>= fun v => look fun m => m.unary op v := by
  unfold Eval.evalUnary
  split
  · cases hname rfl
  · rfl

theorem evalUnary (h : Mirrored E D) (f : FrameRef) (op : UnaryOp) (e : Expr) :
    Mirrors (evalUnary E f op (op.stripOperand e e.strip)) (evalUnary D f op e) := by
  have hvalue (v : Value) : Mirrors (look fun m => m.unary op v) (look fun m => m.unary op v) :=
    mirrors_look fun m => m.unary_strip op v
  by_cases hname : op = .typeOf ∧ e.isName = true
  · obtain ⟨rfl, hname⟩ := hname
    cases e with
    | ident x =>
        refine Mirrors.bind (mirrors_look fun m => by rw [m.lookup?_strip]) fun unbound => ?_
        cases unbound with
        | true => exact mirrors_pure _
        | false => exact (h.expr f (.ident x)).bind hvalue
    | _ => cases hname
  · have hD : op = .typeOf → e.isName = false := fun hop =>
      Bool.eq_false_iff.mpr fun he => hname ⟨hop, he⟩
    have hE : op = .typeOf → (op.stripOperand e e.strip).isName = false := by
      rintro rfl
      exact UnaryOp.isName_stripOperand e (hD rfl)
    rw [evalUnary_eq hD, evalUnary_eq hE]
    exact (h.stripOperand f op e).bind hvalue

theorem evalIndex (h : Mirrored E D) (f : FrameRef) (e k : Expr) :
    Mirrors (evalIndex E f e.strip k.strip) (evalIndex D f e k) := by
  refine (h.expr f e).bind fun base => ?_
  refine (h.expr f k).bind fun v => ?_
  exact (mirrors_textOf v).bind fun key => mirrors_getProperty base key

theorem runInOrder (h : Mirrored E D) (f : FrameRef) (last : Option Value) (ts : List Stmt) :
    Mirrors (runInOrder E f last (stripStmts ts)) (runInOrder D f last ts) := by
  induction ts generalizing last with
  | nil => exact mirrors_pure _
  | cons t ts ih =>
      refine (h.stmt f t).bind fun c => ?_
      cases c with
      | normal v => exact ih (v <|> last)
      | returned v => exact mirrors_pure _
      | broke => exact mirrors_pure _
      | continued => exact mirrors_pure _

theorem runBody (h : Mirrored E D) (f : FrameRef) (body : List Stmt) :
    Mirrors (runBody E f (stripStmts body)) (runBody D f body) :=
  (mirrors_hoistFunctions f body).bind fun _ => h.runInOrder f none body

theorem callBody (h : Mirrored E D) (c : ClosureRef) (args : List Value) :
    Mirrors (callBody E c args) (callBody D c args) := by
  -- The closures that are looked up differ, so that `Mirrors.bind` does not apply.
  intro s
  have hclosure : s.strip.memory.closureAt c = (s.memory.closureAt c).strip :=
    s.memory.closureAt_strip c
  have hbody : Mirrors
      (do
        let f ← allocate fun m => m.newFrame (some (s.memory.closureAt c).scope) true
        bindParams f (s.memory.closureAt c).definition.params args
        hoistVars f (stripStmts (s.memory.closureAt c).definition.body)
        deeper (Eval.runBody E f (stripStmts (s.memory.closureAt c).definition.body)))
      (do
        let f ← allocate fun m => m.newFrame (some (s.memory.closureAt c).scope) true
        bindParams f (s.memory.closureAt c).definition.params args
        hoistVars f (s.memory.closureAt c).definition.body
        deeper (Eval.runBody D f (s.memory.closureAt c).definition.body)) := by
    refine Mirrors.bind (mirrors_allocate fun _ => rfl) fun f => ?_
    refine (mirrors_bindParams f _ args).bind fun _ => ?_
    refine (mirrors_hoistVars f _).bind fun _ => ?_
    exact (h.runBody f _).deeper
  refine Eq.trans ?_ (hbody s)
  simp only [Eval.callBody]
  rw [bind_apply]
  simp only [look, Outcome.bind, hclosure, Closure.strip, Function.strip_params, Function.strip_body]

theorem mirrors_callResult (c : Completion) : Mirrors (callResult c) (callResult c) := by
  cases c with
  | normal v => exact mirrors_pure _
  | returned v => exact mirrors_pure _
  | broke => exact mirrors_fail _
  | continued => exact mirrors_fail _

theorem callClosure (h : Mirrored E D) (c : ClosureRef) (args : List Value) :
    Mirrors (callClosure host E c args) (callClosure host D c args) := by
  refine mirrors_depth.bind fun n => ?_
  split
  · exact mirrors_fail _
  · exact (h.callBody c args).bind mirrors_callResult

theorem evalOperands (h : Mirrored E D) (f : FrameRef) (callee : Expr) (args : List Expr) :
    Mirrors (evalOperands E f callee.strip (stripExprs args)) (evalOperands D f callee args) := by
  refine (h.expr f callee).bind fun v => ?_
  exact (h.evalList f args).bind fun vs => mirrors_pure (v, vs)

theorem evalCall (h : Mirrored E D) (f : FrameRef) (callee : Expr) (args : List Expr) :
    Mirrors (evalCall host E f callee.strip (stripExprs args)) (evalCall host D f callee args) := by
  simp only [Eval.evalCall, describe_strip]
  refine (h.evalOperands f callee args).bind ?_
  rintro ⟨v, vs⟩
  cases v with
  | builtin b => exact mirrors_evalBuiltin host b vs
  | closure c => exact h.callClosure c vs
  | _ => exact mirrors_fail _

theorem evalNew (h : Mirrored E D) (f : FrameRef) (callee : Expr) (args : List Expr) :
    Mirrors (evalNew host E f callee.strip (stripExprs args)) (evalNew host D f callee args) := by
  simp only [Eval.evalNew, describe_strip]
  refine (h.evalOperands f callee args).bind ?_
  rintro ⟨v, vs⟩
  cases v with
  | builtin b =>
      simp only
      split
      · exact mirrors_evalBuiltin host b vs
      · exact mirrors_fail _
  | _ => exact mirrors_fail _

theorem evalExpr (h : Mirrored E D) (f : FrameRef) {e : Expr} (he : ∀ b, e ≠ .paren b) :
    Mirrors (evalExpr host E f e.strip) (evalExpr host D f e) := by
  cases e with
  | ident x => exact mirrors_readName f x
  | number x => exact mirrors_pure _
  | bool b => exact mirrors_pure _
  | null => exact mirrors_pure _
  | string s => exact mirrors_pure _
  | paren e => exact (he e rfl).elim
  | array items =>
      exact (h.evalList f items).bind fun vs => mirrors_allocate fun _ => rfl
  | object properties =>
      exact (h.evalProperties f [] properties).bind fun t => mirrors_allocate fun _ => rfl
  | function definition => exact mirrors_evalFunction f definition
  | field e x => exact (h.expr f e).bind fun base => mirrors_getProperty base x
  | index e k => exact h.evalIndex f e k
  | call callee args => exact h.evalCall f callee args
  | new callee args => exact h.evalNew f callee args
  | binary op l r => exact h.evalBinary f op l r
  | unary op e => exact h.evalUnary f op e
  | update op e => exact h.evalUpdate f op e
  | assign op l r => exact h.evalAssign f op l r
  | cond c t e =>
      refine (h.expr f c).bind fun v => ?_
      cases v.truthy with
      | true => exact h.expr f t
      | false => exact h.expr f e

theorem evalDeclarators (h : Mirrored E D) (f : FrameRef) (kind : DeclKind)
    (ds : List (String × Option Expr)) :
    Mirrors (evalDeclarators E f kind (stripDeclarators ds)) (evalDeclarators D f kind ds) := by
  induction ds with
  | nil => exact mirrors_pure ()
  | cons d ds ih =>
      obtain ⟨x, init⟩ := d
      have hdeclare (v : Value) (isMutable : Bool) :=
        (mirrors_declare f x v isMutable).bind fun _ => ih
      cases init with
      | none =>
          cases kind with
          | var => exact ih
          | letDecl => exact hdeclare _ true
          | constDecl => exact hdeclare _ false
      | some e =>
          simp only [stripDeclarators, stripOption, Eval.evalDeclarators, map_eq_pure_bind, bind_assoc,
            pure_bind]
          refine (h.expr f e).bind fun v => ?_
          cases kind with
          | var => exact (mirrors_assign f x v).bind fun _ => ih
          | letDecl => exact hdeclare _ true
          | constDecl => exact hdeclare _ false

theorem whilePass (h : Mirrored E D) (f : FrameRef) (test : Expr) (body : Stmt)
    (last : Option Value) :
    Mirrors (whilePass E f test.strip body.strip last) (whilePass D f test body last) := by
  refine (h.expr f test).bind fun v => ?_
  cases v.truthy with
  | true => exact (h.stmt f body).bind fun c => mirrors_pure _
  | false => exact mirrors_pure _

theorem doPass (h : Mirrored E D) (f : FrameRef) (body : Stmt) (test : Expr)
    (last : Option Value) :
    Mirrors (doPass E f body.strip test.strip last) (doPass D f body test last) := by
  refine (h.stmt f body).bind fun c => ?_
  cases afterPass last c with
  | inr c => exact mirrors_pure _
  | inl last =>
      refine (h.expr f test).bind fun v => ?_
      cases v.truthy with
      | true => exact mirrors_pure _
      | false => exact mirrors_pure _

theorem holds (h : Mirrored E D) (f : FrameRef) (e : Option Expr) :
    Mirrors (holds E f (stripOption e)) (holds D f e) := by
  cases e with
  | none => exact mirrors_pure _
  | some e => exact (h.expr f e).bind fun v => mirrors_pure _

theorem evalMaybe (h : Mirrored E D) (f : FrameRef) (e : Option Expr) :
    Mirrors (evalMaybe E f (stripOption e)) (evalMaybe D f e) := by
  cases e with
  | none => exact mirrors_pure _
  | some e => exact (h.expr f e).bind fun v => mirrors_pure _

theorem forPass (h : Mirrored E D) (f : FrameRef) (names : List (String × Bool))
    (test update : Option Expr) (body : Stmt) (pass : FrameRef × Option Value) :
    Mirrors (forPass E f names (stripOption test) (stripOption update) body.strip pass)
      (forPass D f names test update body pass) := by
  obtain ⟨inner, last⟩ := pass
  refine (h.holds inner test).bind fun goesOn => ?_
  cases goesOn with
  | false => exact mirrors_pure _
  | true =>
      refine (h.stmt inner body).bind fun c => ?_
      cases afterPass last c with
      | inr c => exact mirrors_pure _
      | inl last =>
          exact (mirrors_nextFrame f inner names).bind fun next =>
            (h.evalMaybe next update).bind fun _ => mirrors_pure _

theorem evalFor (h : Mirrored E D) (f : FrameRef) (init : Option Stmt)
    (test update : Option Expr) (body : Stmt) :
    Mirrors (evalFor E f (stripBranch init) (stripOption test) (stripOption update) body.strip)
      (evalFor D f init test update body) := by
  refine (mirrors_blockFrame f).bind fun inner => ?_
  rw [loopNames_strip, h.fuel]
  have hloop :=
    mirrors_iterate (h.forPass f (loopNames init) test update body) D.fuel (inner, none)
  cases init with
  | none => exact hloop
  | some t => exact (h.stmt inner t).bind fun _ => hloop

theorem evalBlock (h : Mirrored E D) (f : FrameRef) (body : List Stmt) :
    Mirrors (evalBlock E f (stripStmts body)) (evalBlock D f body) :=
  (mirrors_blockFrame f).bind fun inner => h.runBody inner body

theorem evalHandler (h : Mirrored E D) (f : FrameRef) (param : String) (body : List Stmt)
    (e : Fault) :
    Mirrors (evalHandler E f param (stripStmts body) e) (evalHandler D f param body e) := by
  refine (mirrors_blockFrame f).bind fun inner => ?_
  refine Mirrors.bind (mirrors_allocate fun m => e.toValue_strip m) fun v => ?_
  exact (mirrors_declare inner param v true).bind fun _ => h.runBody inner body

theorem handled (h : Mirrored E D) (f : FrameRef) (handler : Option (String × List Stmt))
    (result : Except Fault Completion) :
    Mirrors (handled E f (stripHandler handler) result) (handled D f handler result) := by
  cases handler with
  | none => exact mirrors_pure _
  | some c =>
      cases result with
      | ok c => exact mirrors_pure _
      | error e =>
          simp only [stripHandler, Eval.handled]
          split
          · exact (h.evalHandler f c.1 c.2 e).outcome
          · exact mirrors_pure _

theorem attempt (h : Mirrored E D) (f : FrameRef) (body : List Stmt)
    (handler : Option (String × List Stmt)) :
    Mirrors (attempt E f (stripStmts body) (stripHandler handler)) (attempt D f body handler) :=
  (h.evalBlock f body).outcome.bind fun result => h.handled f handler result

theorem finish (h : Mirrored E D) (f : FrameRef) (result : Except Fault Completion)
    (finalizer : Option (List Stmt)) :
    Mirrors (finish E f result (stripFinalizer finalizer)) (finish D f result finalizer) := by
  cases finalizer with
  | none => exact mirrors_ofExcept result
  | some body =>
      refine (h.evalBlock f body).bind fun c => ?_
      cases c with
      | normal v => exact mirrors_ofExcept result
      | returned v => exact mirrors_pure _
      | broke => exact mirrors_pure _
      | continued => exact mirrors_pure _

theorem evalReturn (h : Mirrored E D) (f : FrameRef) (e : Option Expr) :
    Mirrors (evalReturn E f (stripOption e)) (evalReturn D f e) := by
  cases e with
  | none => exact mirrors_pure _
  | some e => exact (h.expr f e).bind fun v => mirrors_pure _

theorem evalStmt (h : Mirrored E D) (f : FrameRef) (t : Stmt) :
    Mirrors (evalStmt E f t.strip) (evalStmt D f t) := by
  cases t with
  | decl kind ds => exact (h.evalDeclarators f kind ds).bind fun _ => mirrors_pure _
  | function definition => exact mirrors_pure _
  | ifElse c t e =>
      refine (h.expr f c).bind fun v => ?_
      cases v.truthy with
      | true => exact h.stmt f t
      | false =>
          cases e with
          | none => exact mirrors_pure _
          | some e => exact h.stmt f e
  | whileLoop c body =>
      simp only [Stmt.strip, Eval.evalStmt, h.fuel]
      exact mirrors_iterate (h.whilePass f c body) D.fuel none
  | doWhile body c =>
      simp only [Stmt.strip, Eval.evalStmt, h.fuel]
      exact mirrors_iterate (h.doPass f body c) D.fuel none
  | forLoop init test update body => exact h.evalFor f init test update body
  | block body => exact h.evalBlock f body
  | tryCatch body handler finalizer =>
      exact (h.attempt f body handler).bind fun result => h.finish f result finalizer
  | breakLoop => exact mirrors_pure _
  | continueLoop => exact mirrors_pure _
  | returnValue e => exact h.evalReturn f e
  | throw e => exact (h.expr f e).bind fun v => mirrors_fail _
  | expr e => exact (h.expr f e).bind fun v => mirrors_pure _
  | empty => exact mirrors_pure _

theorem mirrors_programResult (c : Completion) :
    Mirrors (programResult c) (programResult c) := by
  cases c with
  | normal v => exact mirrors_pure v
  | _ =>
      refine Mirrors.bind (mirrors_look fun m => ?_) fun jump => mirrors_fail _
      simp only [describeJump, m.inspect_strip]

theorem run (h : Mirrored E D) (global : FrameRef) (program : Program) :
    Mirrors (run E global (stripStmts program)) (run D global program) :=
  Mirrors.bind
    ((mirrors_hoistVars global program).bind fun _ => (mirrors_setDepth 0).bind fun _ =>
      h.runBody global program)
    mirrors_programResult

end Mirrored

end SmallScript.Eval
