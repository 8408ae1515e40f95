import SmallScript.Eval.Program
import SmallScript.Proofs.Eval.Veil
import Mathlib

namespace SmallScript

open Effect Eval

namespace Veil

variable {V : Veil} {host : Host} {f : FrameRef}

theorem blind_textOf (v : Value) : V.Blind f (textOf v) (textOf v) :=
  blind_look fun _ _ => Memory.display_recode v

theorem blind_evalBuiltin (b : Builtin) (args : List Value) :
    V.Blind f (evalBuiltin host b args) (evalBuiltin host b args) := by
  have hnumber (p : Float → Value) (v : Value) :
      V.Blind f (look fun m => p (m.toNumber v)) (look fun m => p (m.toNumber v)) :=
    blind_look fun _ _ => congrArg p (Memory.toNumber_recode v)
  cases b with
  | log | print =>
      have hline : V.Blind f (look fun m => " ".intercalate (args.map m.display))
          (look fun m => " ".intercalate (args.map m.display)) :=
        blind_look fun m _ => by
          rw [show (m.recode V.frame V.code).display = m.display from
            funext fun v => Memory.display_recode v]
      exact hline.bind fun line => (blind_writeLine host line).bind fun _ => blind_pure _
  | failTest => exact (blind_textOf _).bind fun text => blind_fail _
  | isNaN => exact hnumber (fun x => .bool x.isNaN) _
  | isFinite => exact hnumber (fun x => .bool x.isFinite) _
  | toText =>
      cases args with
      | nil => exact blind_pure _
      | cons v args => exact (blind_textOf v).bind fun text => blind_pure _
  | toNumber =>
      cases args with
      | nil => exact blind_pure _
      | cons v args => exact hnumber (fun x => .number x) v
  | toBoolean => exact blind_pure _
  | error c =>
      have hnew (message : String) :
          V.Blind f (newError c.name message) (newError c.name message) :=
        blind_make (fun _ => rfl) (fun _ => rfl) fun _ => rfl
      simp only [evalBuiltin]
      cases args.headD .undefined with
      | undefined => exact hnew ""
      | _ => exact (blind_textOf _).bind hnew

theorem blind_evalFunction (definition : Function) :
    V.Blind f (evalFunction f definition) (evalFunction f definition) := by
  rw [evalFunction]
  cases definition.name with
  | none => exact blind_newClosure definition
  | some x =>
      exact blind_blockFrame fun inner => (blind_newClosure definition).bind fun v =>
        (blind_declare x v true).bind fun _ => blind_pure v

theorem blind_hoistVars (body : List Stmt) : V.Blind f (hoistVars f body) (hoistVars f body) := by
  apply blind_change
  intro m hm
  induction varNames.varNamesOf body generalizing m with
  | nil => exact ⟨rfl, .refl hm.holds⟩
  | cons x xs ih =>
      have hkeeps := hm.declareVar_keeps x
      obtain ⟨heq, hrest⟩ := ih (m.declareVar f x) (hm.keeps hkeeps)
      refine ⟨?_, hkeeps.trans hrest⟩
      rw [List.foldl_cons, Memory.declareVar_recode hm.not_encloses]
      exact heq

theorem blind_hoistFunctions (body : List Stmt) :
    V.Blind f (hoistFunctions f body) (hoistFunctions f body) := by
  induction body with
  | nil => exact blind_pure ()
  | cons t body ih =>
      cases t with
      | function definition =>
          rw [hoistFunctions]
          cases definition.name with
          | none => exact ih
          | some x =>
              exact (blind_newClosure definition).bind fun v =>
                (blind_declare x v true).bind fun _ => ih
      | _ => exact ih

theorem blind_bindParams (xs : List String) (args : List Value) :
    V.Blind f (bindParams f xs args) (bindParams f xs args) := by
  induction xs generalizing args with
  | nil => exact blind_pure ()
  | cons x xs ih => exact (blind_declare x _ true).bind fun _ => ih args.tail

theorem blind_read (target : Target) : V.Blind f (target.read f) (target.read f) := by
  cases target with
  | name x => exact blind_readName x
  | property base key => exact blind_getProperty base key

theorem blind_write (v : Value) (target : Target) :
    V.Blind f (target.write f v) (target.write f v) := by
  cases target with
  | name x => exact blind_assign x v
  | property base key => exact blind_setProperty base key v

theorem blind_callResult (c : Completion) : V.Blind f (callResult c) (callResult c) := by
  cases c with
  | normal | returned => exact blind_pure _
  | broke | continued => exact blind_fail _

theorem blindAt_copyNames {source target : FrameRef} {s : State}
    (hsource : V.Outside source s.memory) (htarget : V.Outside target s.memory)
    (xs : List (String × Bool)) :
    V.BlindAt (copyNames source target xs) (copyNames source target xs) s := by
  induction xs generalizing s with
  | nil => exact blind_pure () s htarget
  | cons x xs ih =>
      have hlook : V.Blind source (look fun m => (m.lookup? source x.1).getD .undefined)
          (look fun m => (m.lookup? source x.1).getD .undefined) :=
        blind_look fun _ hm => by rw [Memory.lookup?_recode hm.not_encloses]
      refine (hlook s hsource).bind fun v s₁ _ h₁ => ?_
      refine (blind_declare x.1 v x.2 s₁ (htarget.keeps h₁)).bind fun _ s₂ _ h₂ => ?_
      exact ih ((hsource.keeps h₁).keeps h₂) ((htarget.keeps h₁).keeps h₂)

theorem blindTo_nextFrame {inner : FrameRef} {s : State} (hf : V.Outside f s.memory)
    (hinner : V.Outside inner s.memory) (names : List (String × Bool)) :
    V.BlindTo (fun next s' => V.Outside next s'.memory) (nextFrame f inner names)
      (nextFrame f inner names) s := by
  cases names with
  | nil => exact blindTo_pure hf.holds hinner
  | cons x xs =>
      refine (blind_newFrame false s hf).bindTo fun next s₁ hdone h₁ => ?_
      have hnext := hf.outside_newFrame hdone
      refine (blindAt_copyNames (hinner.keeps h₁) hnext (x :: xs)).bindTo fun _ s₂ _ h₂ => ?_
      exact blindTo_pure h₂.holds (hnext.keeps h₂)

structure Related (V : Veil) (E D : Evaluator) : Prop where
  fuel : D.fuel = E.fuel
  expr : ∀ f e, V.Blind f (E.expr f e) (D.expr f e)
  stmt : ∀ f t, V.Blind f (E.stmt f t) (D.stmt f t)

namespace Related

variable {E D : Evaluator}

theorem evalList (h : V.Related E D) (es : List Expr) :
    V.Blind f (evalList E f es) (evalList D f es) := by
  induction es with
  | nil => exact blind_pure []
  | cons e es ih =>
      exact (h.expr f e).bind fun v => ih.bind fun vs => blind_pure (v :: vs)

theorem evalProperties (h : V.Related E D) (t : Table Value) (ps : List (String × Expr)) :
    V.Blind f (evalProperties E f t ps) (evalProperties D f t ps) := by
  induction ps generalizing t with
  | nil => exact blind_pure t
  | cons p ps ih => exact (h.expr f p.2).bind fun v => ih (t.set p.1 v)

theorem evalTarget (h : V.Related E D) : (e : Expr) → V.Blind f (evalTarget E f e) (evalTarget D f e)
  | .paren e => h.evalTarget e
  | .ident _ => blind_pure _
  | .field e _ => (h.expr f e).bind fun _ => blind_pure _
  | .index e k =>
      (h.expr f e).bind fun _ => (h.expr f k).bind fun v =>
        (blind_textOf v).bind fun _ => blind_pure _
  | .number _ | .bool _ | .null | .string _ | .array _ | .object _ | .function _ | .call _ _
  | .new _ _ | .binary _ _ _ | .unary _ _ | .update _ _ | .assign _ _ _ | .cond _ _ _ =>
      blind_fail _

theorem evalUpdate (h : V.Related E D) (op : UpdateOp) (e : Expr) :
    V.Blind f (evalUpdate E f op e) (evalUpdate D f op e) := by
  refine (h.evalTarget e).bind fun target => ?_
  refine (blind_read target).bind fun old => ?_
  refine (blind_look fun _ _ => Memory.toNumber_recode old).bind fun x => ?_
  exact (blind_write _ target).bind fun _ => blind_pure _

theorem evalAssign (h : V.Related E D) (op : AssignOp) (l r : Expr) :
    V.Blind f (evalAssign E f op l r) (evalAssign D f op l r) := by
  refine (h.evalTarget l).bind fun target => ?_
  have hstore (v : Value) :
      V.Blind f (do target.write f v; return v) (do target.write f v; return v) :=
    (blind_write v target).bind fun _ => blind_pure v
  cases op with
  | set => exact (h.expr f r).bind hstore
  | _ =>
      refine (blind_read target).bind fun old => ?_
      refine (h.expr f r).bind fun new => ?_
      exact (blind_look fun _ _ => Memory.compound_recode _ old new).bind hstore

theorem evalBinary (h : V.Related E D) (op : BinaryOp) (l r : Expr) :
    V.Blind f (evalBinary E f op l r) (evalBinary D f op l r) := by
  have hr := h.expr f r
  refine (h.expr f l).bind fun v => ?_
  cases op with
  | and => cases v.truthy with
    | true => exact hr
    | false => exact blind_pure v
  | or => cases v.truthy with
    | true => exact blind_pure v
    | false => exact hr
  | _ => exact hr.bind fun w => blind_query fun _ _ => Memory.binary_recode _ v w

theorem evalUnary (h : V.Related E D) (op : UnaryOp) (e : Expr) :
    V.Blind f (evalUnary E f op e) (evalUnary D f op e) := by
  have hvalue : V.Blind f (E.expr f e >>= fun v => look fun m => m.unary op v)
      (D.expr f e >>= fun v => look fun m => m.unary op v) :=
    (h.expr f e).bind fun v => blind_look fun _ _ => Memory.unary_recode op v
  have hrest (unbound : Bool) :
      V.Blind f (if unbound then pure (.string "undefined")
          else E.expr f e >>= fun v => look fun m => m.unary op v)
        (if unbound then pure (.string "undefined")
          else D.expr f e >>= fun v => look fun m => m.unary op v) := by
    cases unbound with
    | true => exact blind_pure _
    | false => exact hvalue
  unfold Eval.evalUnary
  split
  · exact Blind.bind (blind_look fun _ hm => by rw [Memory.lookup?_recode hm.not_encloses]) hrest
  · exact (blind_pure false).bind hrest

theorem evalIndex (h : V.Related E D) (e k : Expr) :
    V.Blind f (evalIndex E f e k) (evalIndex D f e k) := by
  refine (h.expr f e).bind fun base => ?_
  refine (h.expr f k).bind fun v => ?_
  exact (blind_textOf v).bind fun key => blind_getProperty base key

theorem runInOrder (h : V.Related E D) (last : Option Value) (ts : List Stmt) :
    V.Blind f (runInOrder E f last ts) (runInOrder D f last ts) := by
  induction ts generalizing last with
  | nil => exact blind_pure _
  | cons t ts ih =>
      refine (h.stmt f t).bind fun c => ?_
      cases c with
      | normal v => exact ih (v <|> last)
      | returned | broke | continued => exact blind_pure _

theorem runBody (h : V.Related E D) (body : List Stmt) :
    V.Blind f (runBody E f body) (runBody D f body) :=
  (blind_hoistFunctions body).bind fun _ => h.runInOrder none body

theorem callBody (h : V.Related E D) (c : ClosureRef) (args : List Value) {s : State}
    (hs : V.Outside (s.memory.closureAt c).scope s.memory) :
    V.BlindAt (callBody E c args) (callBody D c args) s := by
  have hlook : V.Blind (s.memory.closureAt c).scope (look fun m => m.closureAt c)
      (look fun m => m.closureAt c) :=
    blind_look fun _ _ => rfl
  refine (hlook s hs).bind fun closure s' hdone _ => ?_
  cases hdone
  refine blindAt_newFrame hs fun i s₁ _ hi => ?_
  have hbody : V.Blind i
      (do
        bindParams i (s.memory.closureAt c).definition.params args
        hoistVars i (s.memory.closureAt c).definition.body
        deeper (Eval.runBody E i (s.memory.closureAt c).definition.body))
      (do
        bindParams i (s.memory.closureAt c).definition.params args
        hoistVars i (s.memory.closureAt c).definition.body
        deeper (Eval.runBody D i (s.memory.closureAt c).definition.body)) :=
    (blind_bindParams _ args).bind fun _ => (blind_hoistVars _).bind fun _ =>
      (h.runBody _).deeper
  exact hbody s₁ hi

theorem callClosure (h : V.Related E D) (c : ClosureRef) (args : List Value) {s : State}
    (hs : V.Outside (s.memory.closureAt c).scope s.memory) :
    V.BlindAt (callClosure host E c args) (callClosure host D c args) s := by
  refine (blind_depth s hs).bind fun n s' hdone _ => ?_
  cases hdone
  split
  · exact blind_fail _ s hs
  · exact (h.callBody c args hs).bind fun c s₁ _ h₁ => blind_callResult c s₁ (hs.keeps h₁)

theorem evalOperands (h : V.Related E D) (callee : Expr) (args : List Expr) :
    V.Blind f (evalOperands E f callee args) (evalOperands D f callee args) := by
  refine (h.expr f callee).bind fun v => ?_
  exact (h.evalList args).bind fun vs => blind_pure (v, vs)

theorem evalNew (h : V.Related E D) (callee : Expr) (args : List Expr) :
    V.Blind f (evalNew host E f callee args) (evalNew host D f callee args) := by
  refine (h.evalOperands callee args).bind ?_
  rintro ⟨v, vs⟩
  cases v with
  | builtin b =>
      simp only
      split
      · exact blind_evalBuiltin b vs
      · exact blind_fail _
  | _ => exact blind_fail _

theorem evalExpr (h : V.Related E D) {e : Expr} (he : ∀ callee args, e ≠ .call callee args) :
    V.Blind f (evalExpr host E f e) (evalExpr host D f e) := by
  cases e with
  | ident x => exact blind_readName x
  | number | bool | null | string => exact blind_pure _
  | paren e => exact h.expr f e
  | array items =>
      exact (h.evalList items).bind fun vs =>
        blind_make (fun _ => rfl) (fun _ => rfl) fun _ => rfl
  | object properties =>
      exact (h.evalProperties [] properties).bind fun t =>
        blind_make (fun _ => rfl) (fun _ => rfl) fun _ => rfl
  | function definition => exact blind_evalFunction definition
  | field e x => exact (h.expr f e).bind fun base => blind_getProperty base x
  | index e k => exact h.evalIndex e k
  | call callee args => exact (he callee args rfl).elim
  | new callee args => exact h.evalNew callee args
  | binary op l r => exact h.evalBinary op l r
  | unary op e => exact h.evalUnary op e
  | update op e => exact h.evalUpdate op e
  | assign op l r => exact h.evalAssign op l r
  | cond c t e =>
      refine (h.expr f c).bind fun v => ?_
      cases v.truthy with
      | true => exact h.expr f t
      | false => exact h.expr f e

theorem evalDeclarators (h : V.Related E D) (kind : DeclKind)
    (ds : List (String × Option Expr)) :
    V.Blind f (evalDeclarators E f kind ds) (evalDeclarators D f kind ds) := by
  induction ds with
  | nil => exact blind_pure ()
  | cons d ds ih =>
      obtain ⟨x, init⟩ := d
      have hdeclare (v : Value) (isMutable : Bool) :=
        (blind_declare (V := V) (f := f) x v isMutable).bind fun _ => ih
      cases init with
      | none =>
          cases kind with
          | var => exact ih
          | letDecl => exact hdeclare _ true
          | constDecl => exact hdeclare _ false
      | some e =>
          simp only [Eval.evalDeclarators, map_eq_pure_bind, bind_assoc, pure_bind]
          refine (h.expr f e).bind fun v => ?_
          cases kind with
          | var => exact (blind_assign x v).bind fun _ => ih
          | letDecl => exact hdeclare _ true
          | constDecl => exact hdeclare _ false

theorem whilePass (h : V.Related E D) (test : Expr) (body : Stmt) (last : Option Value) :
    V.Blind f (whilePass E f test body last) (whilePass D f test body last) := by
  refine (h.expr f test).bind fun v => ?_
  cases v.truthy with
  | true => exact (h.stmt f body).bind fun c => blind_pure _
  | false => exact blind_pure _

theorem doPass (h : V.Related E D) (body : Stmt) (test : Expr) (last : Option Value) :
    V.Blind f (doPass E f body test last) (doPass D f body test last) := by
  refine (h.stmt f body).bind fun c => ?_
  cases afterPass last c with
  | inr c => exact blind_pure _
  | inl last =>
      refine (h.expr f test).bind fun v => ?_
      cases v.truthy with
      | true => exact blind_pure _
      | false => exact blind_pure _

theorem holds (h : V.Related E D) (e : Option Expr) :
    V.Blind f (holds E f e) (holds D f e) := by
  cases e with
  | none => exact blind_pure _
  | some e => exact (h.expr f e).bind fun v => blind_pure _

theorem evalMaybe (h : V.Related E D) (e : Option Expr) :
    V.Blind f (evalMaybe E f e) (evalMaybe D f e) := by
  cases e with
  | none => exact blind_pure _
  | some e => exact (h.expr f e).bind fun v => blind_pure _

theorem evalBlock (h : V.Related E D) (body : List Stmt) :
    V.Blind f (evalBlock E f body) (evalBlock D f body) :=
  blind_blockFrame fun _ => h.runBody body

theorem evalHandler (h : V.Related E D) (param : String) (body : List Stmt) (e : Fault) :
    V.Blind f (evalHandler E f param body e) (evalHandler D f param body e) := by
  refine blind_blockFrame fun inner => ?_
  refine Blind.bind (blind_make (fun _ => Memory.toValue_recode e)
    (fun m => m.frames_toValue e) fun m => e.closures_toValue m) fun v => ?_
  exact (blind_declare param v true).bind fun _ => h.runBody body

theorem handled (h : V.Related E D) (handler : Option (String × List Stmt))
    (result : Except Fault Completion) :
    V.Blind f (handled E f handler result) (handled D f handler result) := by
  cases handler with
  | none => exact blind_pure _
  | some c =>
      cases result with
      | ok c => exact blind_pure _
      | error e =>
          simp only [Eval.handled]
          split
          · exact (h.evalHandler c.1 c.2 e).outcome
          · exact blind_pure _

theorem attempt (h : V.Related E D) (body : List Stmt) (handler : Option (String × List Stmt)) :
    V.Blind f (attempt E f body handler) (attempt D f body handler) :=
  (h.evalBlock body).outcome.bind fun result => h.handled handler result

theorem finish (h : V.Related E D) (result : Except Fault Completion)
    (finalizer : Option (List Stmt)) :
    V.Blind f (finish E f result finalizer) (finish D f result finalizer) := by
  cases finalizer with
  | none => exact blind_ofExcept result
  | some body =>
      refine (h.evalBlock body).bind fun c => ?_
      cases c with
      | normal v => exact blind_ofExcept result
      | returned | broke | continued => exact blind_pure _

theorem evalReturn (h : V.Related E D) (e : Option Expr) :
    V.Blind f (evalReturn E f e) (evalReturn D f e) := by
  cases e with
  | none => exact blind_pure _
  | some e => exact (h.expr f e).bind fun v => blind_pure _

/-- A pass in a frame that is outside ends in such a frame. -/
theorem forPass (h : V.Related E D) (names : List (String × Bool)) (test update : Option Expr)
    (body : Stmt) (pass : FrameRef × Option Value) {s : State} (hf : V.Outside f s.memory)
    (hinner : V.Outside pass.1 s.memory) :
    V.BlindTo (fun r s' => ∀ pass', r = .inl pass' → V.Outside f s'.memory ∧
        V.Outside pass'.1 s'.memory)
      (forPass E f names test update body pass) (forPass D f names test update body pass) s := by
  obtain ⟨inner, last⟩ := pass
  refine (h.holds test s hinner).bindTo fun goesOn s₁ _ h₁ => ?_
  have hinner₁ := hinner.keeps h₁
  cases goesOn with
  | false => exact blindTo_pure h₁.holds fun pass' hr => by cases hr
  | true =>
      refine (h.stmt inner body s₁ hinner₁).bindTo fun c s₂ _ h₂ => ?_
      have hf₂ := (hf.keeps h₁).keeps h₂
      cases afterPass last c with
      | inr c => exact blindTo_pure h₂.holds fun pass' hr => by cases hr
      | inl last =>
          obtain ⟨hcopy, hout⟩ := blindTo_nextFrame hf₂ (hinner₁.keeps h₂) names
          refine hcopy.bindTo fun next s₃ hdone h₃ => ?_
          have hnext := hout next s₃ hdone
          refine (h.evalMaybe update s₃ hnext).bindTo fun _ s₄ _ h₄ => ?_
          refine blindTo_pure h₄.holds fun pass' hr => ?_
          cases hr
          exact ⟨(hf₂.keeps h₃).keeps h₄, hnext.keeps h₄⟩

theorem passes (h : V.Related E D) (names : List (String × Bool)) (test update : Option Expr)
    (body : Stmt) (n : Nat) (pass : FrameRef × Option Value) {s : State}
    (hf : V.Outside f s.memory) (hinner : V.Outside pass.1 s.memory) :
    V.BlindAt (iterate (Eval.forPass E f names test update body) n pass)
      (iterate (Eval.forPass D f names test update body) n pass) s := by
  refine blindAt_iterate
    (I := fun pass s => V.Outside f s.memory ∧ V.Outside pass.1 s.memory)
    (fun _ _ hI => hI.1) (fun pass s hI => ?_) n ⟨hf, hinner⟩
  exact h.forPass names test update body pass hI.1 hI.2

theorem evalFor (h : V.Related E D) (init : Option Stmt) (test update : Option Expr)
    (body : Stmt) :
    V.Blind f (evalFor E f init test update body) (evalFor D f init test update body) := by
  intro s hf
  refine blindAt_newFrame hf fun inner s₁ h₁ hinner => ?_
  rw [h.fuel]
  have hf₁ := hf.keeps h₁
  cases init with
  | none => exact h.passes _ test update body E.fuel (inner, none) hf₁ hinner
  | some t =>
      refine (h.stmt inner t s₁ hinner).bind fun _ s₂ _ h₂ => ?_
      exact h.passes _ test update body E.fuel (inner, none) (hf₁.keeps h₂) (hinner.keeps h₂)

theorem evalStmt (h : V.Related E D) (t : Stmt) :
    V.Blind f (evalStmt E f t) (evalStmt D f t) := by
  cases t with
  | decl kind ds => exact (h.evalDeclarators kind ds).bind fun _ => blind_pure _
  | function definition => exact blind_pure _
  | ifElse c t e =>
      refine (h.expr f c).bind fun v => ?_
      cases v.truthy with
      | true => exact h.stmt f t
      | false =>
          cases e with
          | none => exact blind_pure _
          | some e => exact h.stmt f e
  | whileLoop c body =>
      simp only [Eval.evalStmt, h.fuel]
      exact blind_iterate (h.whilePass c body) E.fuel none
  | doWhile body c =>
      simp only [Eval.evalStmt, h.fuel]
      exact blind_iterate (h.doPass body c) E.fuel none
  | forLoop init test update body => exact h.evalFor init test update body
  | block body => exact h.evalBlock body
  | tryCatch body handler finalizer =>
      exact (h.attempt body handler).bind fun result => h.finish result finalizer
  | breakLoop | continueLoop | empty => exact blind_pure _
  | returnValue e => exact h.evalReturn e
  | throw e => exact (h.expr f e).bind fun v => blind_fail _
  | expr e => exact (h.expr f e).bind fun v => blind_pure _

end Related

end Veil

end SmallScript
