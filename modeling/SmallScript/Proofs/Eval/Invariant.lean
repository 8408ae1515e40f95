import SmallScript.Proofs.Eval.FrameEffect
import SmallScript.Proofs.Eval.ObjectLiteral
import Mathlib

namespace SmallScript

/-- A property of memories that nothing a program does to a memory takes away. -/
structure Memory.Invariant (I : Memory → Prop) : Prop where
  frames : ∀ {m : Memory} (frames : Array Frame), I m → I { m with frames }
  closures : ∀ {m : Memory} (closures : Array Closure), I m → I { m with closures }
  newArray : ∀ {m : Memory} (items : Array Value), I m → I (m.newArray items).2
  newObject : ∀ {m : Memory}, I m → I (m.newObject []).2
  newError : ∀ {m : Memory} (name message : String), I m → I (m.newError name message).2
  write : ∀ {m : Memory} (v : Value) (p : Place), I m → I (m.write v p)

namespace Eval

open Effect

variable {α β γ : Type} {I : Memory → Prop} {x y : Effect α}

/-- From states with the property on, the effects have one outcome, and it has the property. -/
def Alike (I : Memory → Prop) (x y : Effect α) : Prop :=
  ∀ s, I s.memory → x s = y s ∧ ∀ s', (y s).state? = some s' → I s'.memory

section Combinators

theorem alike_self (h : ∀ s, I s.memory → ∀ s', (x s).state? = some s' → I s'.memory) :
    Alike I x x := fun s hs => ⟨rfl, h s hs⟩

theorem alike_of_same (h : ∀ s s', (x s).state? = some s' → s'.memory = s.memory) :
    Alike I x x := alike_self fun s hs s' hs' => h s s' hs' ▸ hs

theorem alike_pure (a : α) : Alike I (pure a) (pure a) :=
  alike_of_same fun _ _ h => by cases h; rfl

theorem alike_fail (e : Fault) : Alike I (fail e : Effect α) (fail e) :=
  alike_of_same fun _ _ h => by cases h; rfl

theorem alike_exhausted : Alike I (fun _ => .exhausted : Effect α) (fun _ => .exhausted) :=
  alike_of_same fun _ _ h => by cases h

theorem alike_look (f : Memory → α) : Alike I (look f) (look f) :=
  alike_of_same fun _ _ h => by cases h; rfl

theorem alike_ofExcept (r : Except Fault α) : Alike I (ofExcept r) (ofExcept r) := by
  cases r with
  | ok a => exact alike_pure a
  | error e => exact alike_fail e

theorem alike_query (f : Memory → Except Fault α) : Alike I (query f) (query f) :=
  fun s hs => alike_ofExcept (f s.memory) s hs

theorem alike_depth : Alike I depth depth := alike_of_same fun _ _ h => by cases h; rfl

theorem alike_setDepth (n : Nat) : Alike I (setDepth n) (setDepth n) :=
  alike_of_same fun _ _ h => by cases h; rfl

theorem alike_writeLine (host : Host) (line : String) :
    Alike I (writeLine host line) (writeLine host line) := by
  refine alike_of_same fun s s' h => ?_
  unfold writeLine at h
  cases hfault : host.sinkFault s.writes with
  | none =>
      simp only [hfault] at h
      cases h
      rfl
  | some e =>
      simp only [hfault] at h
      cases h
      rfl

theorem alike_change {f : Memory → Memory} (h : ∀ m, I m → I (f m)) :
    Alike I (change f) (change f) :=
  alike_self fun s hs s' hs' => by cases hs'; exact h s.memory hs

theorem alike_allocate {f : Memory → α × Memory} (h : ∀ m, I m → I (f m).2) :
    Alike I (allocate f) (allocate f) :=
  alike_self fun s hs s' hs' => by cases hs'; exact h s.memory hs

theorem Alike.bind {f g : α → Effect β} (hx : Alike I x y) (hf : ∀ a, Alike I (f a) (g a)) :
    Alike I (x >>= f) (y >>= g) := by
  intro s hs
  obtain ⟨heq, hkeeps⟩ := hx s hs
  rw [bind_apply, bind_apply, heq]
  cases hy : y s with
  | done a s₁ => exact hf a s₁ (hkeeps s₁ (by rw [hy]; rfl))
  | fail e s₁ => exact ⟨rfl, fun s' hs' => hkeeps s' (by rw [hy]; exact hs')⟩
  | exhausted => exact ⟨rfl, nofun⟩

theorem Alike.deeper (h : Alike I x y) : Alike I (deeper x) (deeper y) := by
  intro s hs
  obtain ⟨heq, hkeeps⟩ := h { s with depth := s.depth + 1 } hs
  rw [deeper_apply, deeper_apply, heq]
  refine ⟨rfl, fun s' hs' => ?_⟩
  rw [Outcome.state?_mapState, Option.map_eq_some_iff] at hs'
  obtain ⟨s₁, hs₁, rfl⟩ := hs'
  exact hkeeps s₁ hs₁

theorem Alike.outcome (h : Alike I x y) : Alike I (outcome x) (outcome y) := by
  intro s hs
  obtain ⟨heq, hkeeps⟩ := h s hs
  rw [outcome_apply, outcome_apply, heq]
  refine ⟨rfl, fun s' hs' => hkeeps s' ?_⟩
  cases hy : y s <;> rw [hy] at hs' <;> exact hs'

theorem alike_iterate {step step' : β → Effect (β ⊕ γ)} (h : ∀ b, Alike I (step b) (step' b))
    (n : Nat) (b : β) : Alike I (iterate step n b) (iterate step' n b) := by
  induction n generalizing b with
  | zero => exact alike_exhausted
  | succ n ih =>
      rw [iterate_succ, iterate_succ]
      refine (h b).bind ?_
      rintro (b | c)
      · exact ih b
      · exact alike_pure c

end Combinators

theorem alike_read (f : FrameRef) (target : Target) : Alike I (target.read f) (target.read f) := by
  cases target with
  | name x => exact alike_query fun m => m.readName f x
  | property base key => exact alike_query fun m => m.getProperty base key

theorem alike_callResult (c : Completion) : Alike I (callResult c) (callResult c) := by
  cases c with
  | broke | continued => exact alike_fail _
  | normal | returned => exact alike_pure _

section Primitives

variable (hI : Memory.Invariant I) (f : FrameRef)

include hI

theorem alike_declare (x : String) (v : Value) (isMutable : Bool) :
    Alike I (declare f x v isMutable) (declare f x v isMutable) :=
  alike_change fun _ hm => hI.frames _ hm

theorem alike_assign (x : String) (v : Value) : Alike I (assign f x v) (assign f x v) :=
  (alike_query _).bind fun i => alike_declare hI i x v true

theorem alike_setProperty (base : Value) (key : String) (v : Value) :
    Alike I (setProperty base key v) (setProperty base key v) :=
  (alike_query _).bind fun p => alike_change fun _ hm => hI.write v p hm

theorem alike_newFrame (parent : Option FrameRef) (isBoundary : Bool) :
    Alike I (allocate fun m => m.newFrame parent isBoundary)
      (allocate fun m => m.newFrame parent isBoundary) :=
  alike_allocate fun _ hm => hI.frames _ hm

theorem alike_newObject : Alike I (newObject []) (newObject []) :=
  alike_allocate fun _ hm => hI.newObject hm

theorem alike_newClosure (definition : Function) :
    Alike I (newClosure definition f) (newClosure definition f) :=
  alike_allocate fun _ hm => hI.closures _ hm

theorem alike_toValue (e : Fault) :
    Alike I (allocate fun m => e.toValue m) (allocate fun m => e.toValue m) := by
  refine alike_allocate fun m hm => ?_
  cases e with
  | thrown v => exact hm
  | _ => exact hI.newError _ _ hm

theorem alike_setProperties (o : Value) (entries : List (String × Value)) :
    Alike I (setProperties o entries) (setProperties o entries) := by
  induction entries with
  | nil => exact alike_pure ()
  | cons e entries ih => exact (alike_setProperty hI o e.1 e.2).bind fun _ => ih

theorem alike_evalFunction (definition : Function) :
    Alike I (evalFunction f definition) (evalFunction f definition) := by
  rw [evalFunction]
  cases definition.name with
  | none => exact alike_newClosure hI f definition
  | some x =>
      refine (alike_newFrame hI (some f) false).bind fun inner => ?_
      refine (alike_newClosure hI inner definition).bind fun v => ?_
      exact (alike_declare hI inner x v true).bind fun _ => alike_pure v

theorem alike_write (v : Value) (target : Target) :
    Alike I (target.write f v) (target.write f v) := by
  cases target with
  | name x => exact alike_assign hI f x v
  | property base key => exact alike_setProperty hI base key v

theorem alike_evalBuiltin (host : Host) (b : Builtin) (args : List Value) :
    Alike I (evalBuiltin host b args) (evalBuiltin host b args) := by
  cases b with
  | log | print =>
      exact (alike_look _).bind fun line => (alike_writeLine host line).bind fun _ => alike_pure _
  | failTest => exact (alike_look _).bind fun text => alike_fail _
  | isNaN | isFinite =>
      simp only [evalBuiltin]
      exact alike_look _
  | toText =>
      cases args with
      | nil => exact alike_pure _
      | cons v args => exact (alike_look _).bind fun text => alike_pure _
  | toNumber =>
      cases args with
      | nil => exact alike_pure _
      | cons v args =>
          simp only [evalBuiltin]
          exact alike_look _
  | toBoolean => exact alike_pure _
  | error c =>
      have hnew (message : String) : Alike I (newError c.name message) (newError c.name message) :=
        alike_allocate fun _ hm => hI.newError _ _ hm
      simp only [evalBuiltin]
      cases args.headD .undefined with
      | undefined => exact hnew ""
      | _ => exact (alike_look _).bind hnew

theorem declareVars_of_invariant {m : Memory} (xs : List String) (hm : I m) :
    I (xs.foldl (fun m x => m.declareVar f x) m) := by
  induction xs generalizing m with
  | nil => exact hm
  | cons x xs ih =>
      refine ih ?_
      simp only [Memory.declareVar]
      split
      · exact hm
      · exact hI.frames _ hm

theorem alike_hoistVars (body : List Stmt) : Alike I (hoistVars f body) (hoistVars f body) :=
  alike_change fun _ hm => declareVars_of_invariant hI f _ hm

theorem alike_hoistFunctions (body : List Stmt) :
    Alike I (hoistFunctions f body) (hoistFunctions f body) := by
  induction body with
  | nil => exact alike_pure ()
  | cons t body ih =>
      cases t with
      | function definition =>
          rw [hoistFunctions]
          cases definition.name with
          | none => exact ih
          | some x =>
              refine (alike_newClosure hI f definition).bind fun v => ?_
              exact (alike_declare hI f x v true).bind fun _ => ih
      | _ => exact ih

theorem alike_bindParams (xs : List String) (args : List Value) :
    Alike I (bindParams f xs args) (bindParams f xs args) := by
  induction xs generalizing args with
  | nil => exact alike_pure ()
  | cons x xs ih => exact (alike_declare hI f x _ true).bind fun _ => ih args.tail

theorem alike_copyNames (source : FrameRef) (names : List (String × Bool)) :
    Alike I (copyNames source f names) (copyNames source f names) := by
  induction names with
  | nil => exact alike_pure ()
  | cons x names ih =>
      exact (alike_look _).bind fun v => (alike_declare hI f x.1 v x.2).bind fun _ => ih

theorem alike_nextFrame (inner : FrameRef) (names : List (String × Bool)) :
    Alike I (nextFrame f inner names) (nextFrame f inner names) := by
  cases names with
  | nil => exact alike_pure inner
  | cons x names =>
      refine (alike_newFrame hI (some f) false).bind fun next => ?_
      exact (alike_copyNames hI next inner (x :: names)).bind fun _ => alike_pure next

end Primitives

structure Alikes (I : Memory → Prop) (D E : Evaluator) : Prop where
  fuel : D.fuel = E.fuel
  expr : ∀ f e, Alike I (D.expr f e) (E.expr f e)
  stmt : ∀ f t, Alike I (D.stmt f t) (E.stmt f t)

namespace Alikes

variable {D E : Evaluator} {f : FrameRef} {host : Host}

section Expressions

theorem evalList (h : Alikes I D E) (es : List Expr) :
    Alike I (evalList D f es) (evalList E f es) := by
  induction es with
  | nil => exact alike_pure []
  | cons e es ih => exact (h.expr f e).bind fun v => ih.bind fun vs => alike_pure (v :: vs)

theorem evalTarget (h : Alikes I D E) : (e : Expr) → Alike I (evalTarget D f e) (evalTarget E f e)
  | .paren e => h.evalTarget e
  | .ident _ => alike_pure _
  | .field e _ => (h.expr f e).bind fun _ => alike_pure _
  | .index e k =>
      (h.expr f e).bind fun _ => (h.expr f k).bind fun _ =>
        (alike_look _).bind fun _ => alike_pure _
  | .number _ | .bool _ | .null | .string _ | .array _ | .object _ | .function _ | .call _ _
  | .new _ _ | .binary _ _ _ | .unary _ _ | .update _ _ | .assign _ _ _ | .cond _ _ _ =>
      alike_fail _

theorem evalBinary (h : Alikes I D E) (op : BinaryOp) (l r : Expr) :
    Alike I (evalBinary D f op l r) (evalBinary E f op l r) := by
  have hr := h.expr f r
  refine (h.expr f l).bind fun v => ?_
  cases op with
  | and => cases v.truthy with
    | true => exact hr
    | false => exact alike_pure v
  | or => cases v.truthy with
    | true => exact alike_pure v
    | false => exact hr
  | _ => exact hr.bind fun w => alike_query _

theorem evalUnary (h : Alikes I D E) (op : UnaryOp) (e : Expr) :
    Alike I (evalUnary D f op e) (evalUnary E f op e) := by
  have hrest (unbound : Bool) :
      Alike I (if unbound then pure (.string "undefined")
          else D.expr f e >>= fun v => look fun m => m.unary op v)
        (if unbound then pure (.string "undefined")
          else E.expr f e >>= fun v => look fun m => m.unary op v) := by
    cases unbound with
    | true => exact alike_pure _
    | false => exact (h.expr f e).bind fun v => alike_look _
  unfold Eval.evalUnary
  split
  · exact (alike_look _).bind hrest
  · exact (alike_pure false).bind hrest

theorem evalIndex (h : Alikes I D E) (e k : Expr) :
    Alike I (evalIndex D f e k) (evalIndex E f e k) :=
  (h.expr f e).bind fun _ => (h.expr f k).bind fun _ =>
    (alike_look _).bind fun _ => alike_query _

theorem runInOrder (h : Alikes I D E) (last : Option Value) (ts : List Stmt) :
    Alike I (runInOrder D f last ts) (runInOrder E f last ts) := by
  induction ts generalizing last with
  | nil => exact alike_pure _
  | cons t ts ih =>
      refine (h.stmt f t).bind fun c => ?_
      cases c with
      | normal v => exact ih (v <|> last)
      | returned | broke | continued => exact alike_pure _

theorem evalOperands (h : Alikes I D E) (callee : Expr) (args : List Expr) :
    Alike I (evalOperands D f callee args) (evalOperands E f callee args) :=
  (h.expr f callee).bind fun v => (h.evalList args).bind fun vs => alike_pure (v, vs)

variable (hI : Memory.Invariant I)

include hI

theorem evalUpdate (h : Alikes I D E) (op : UpdateOp) (e : Expr) :
    Alike I (evalUpdate D f op e) (evalUpdate E f op e) := by
  refine (h.evalTarget e).bind fun target => ?_
  refine (alike_read f target).bind fun old => ?_
  refine (alike_look _).bind fun x => ?_
  exact (alike_write hI f _ target).bind fun _ => alike_pure _

theorem evalAssign (h : Alikes I D E) (op : AssignOp) (l r : Expr) :
    Alike I (evalAssign D f op l r) (evalAssign E f op l r) := by
  refine (h.evalTarget l).bind fun target => ?_
  have hstore (v : Value) :
      Alike I (do target.write f v; return v) (do target.write f v; return v) :=
    (alike_write hI f v target).bind fun _ => alike_pure v
  cases op with
  | set => exact (h.expr f r).bind hstore
  | _ =>
      refine (alike_read f target).bind fun old => ?_
      refine (h.expr f r).bind fun new => ?_
      exact (alike_look _).bind hstore

theorem runBody (h : Alikes I D E) (body : List Stmt) :
    Alike I (runBody D f body) (runBody E f body) :=
  (alike_hoistFunctions hI f body).bind fun _ => h.runInOrder none body

theorem callBody (h : Alikes I D E) (c : ClosureRef) (args : List Value) :
    Alike I (callBody D c args) (callBody E c args) := by
  refine (alike_look _).bind fun closure => ?_
  refine (alike_newFrame hI _ true).bind fun i => ?_
  refine (alike_bindParams hI i _ args).bind fun _ => ?_
  exact (alike_hoistVars hI i _).bind fun _ => (h.runBody hI _).deeper

theorem callClosure (h : Alikes I D E) (c : ClosureRef) (args : List Value) :
    Alike I (callClosure host D c args) (callClosure host E c args) := by
  refine alike_depth.bind fun n => ?_
  split
  · exact alike_fail _
  · exact (h.callBody hI c args).bind alike_callResult

theorem evalNew (h : Alikes I D E) (callee : Expr) (args : List Expr) :
    Alike I (evalNew host D f callee args) (evalNew host E f callee args) := by
  refine (h.evalOperands callee args).bind ?_
  rintro ⟨v, vs⟩
  cases v with
  | builtin b =>
      simp only
      split
      · exact alike_evalBuiltin hI host b vs
      · exact alike_fail _
  | _ => exact alike_fail _

/-- An object literal is an empty object and writes to it. -/
theorem evalObject (h : Alikes I D E) (properties : List (String × Expr)) :
    Alike I (evalExpr host D f (.object properties)) (evalExpr host E f (.object properties)) := by
  rw [evalExpr_object, evalExpr_object]
  refine (h.evalList _).bind fun vs => ?_
  refine (alike_newObject hI).bind fun o => ?_
  exact (alike_setProperties hI o _).bind fun _ => alike_pure o

theorem evalExpr (h : Alikes I D E) {e : Expr} (he : ∀ callee args, e ≠ .call callee args) :
    Alike I (evalExpr host D f e) (evalExpr host E f e) := by
  cases e with
  | ident x => exact alike_query fun m => m.readName f x
  | number | bool | null | string => exact alike_pure _
  | paren e => exact h.expr f e
  | array items =>
      exact (h.evalList items).bind fun vs => alike_allocate fun _ hm => hI.newArray _ hm
  | object properties => exact h.evalObject hI properties
  | function definition => exact alike_evalFunction hI f definition
  | field e x => exact (h.expr f e).bind fun base => alike_query _
  | index e k => exact h.evalIndex e k
  | call callee args => exact (he callee args rfl).elim
  | new callee args => exact h.evalNew hI callee args
  | binary op l r => exact h.evalBinary op l r
  | unary op e => exact h.evalUnary op e
  | update op e => exact h.evalUpdate hI op e
  | assign op l r => exact h.evalAssign hI op l r
  | cond c t e =>
      refine (h.expr f c).bind fun v => ?_
      cases v.truthy with
      | true => exact h.expr f t
      | false => exact h.expr f e

end Expressions

section Statements

theorem whilePass (h : Alikes I D E) (test : Expr) (body : Stmt) (last : Option Value) :
    Alike I (whilePass D f test body last) (whilePass E f test body last) := by
  refine (h.expr f test).bind fun v => ?_
  cases v.truthy with
  | true => exact (h.stmt f body).bind fun c => alike_pure _
  | false => exact alike_pure _

theorem doPass (h : Alikes I D E) (body : Stmt) (test : Expr) (last : Option Value) :
    Alike I (doPass D f body test last) (doPass E f body test last) := by
  refine (h.stmt f body).bind fun c => ?_
  cases afterPass last c with
  | inr c => exact alike_pure _
  | inl last =>
      refine (h.expr f test).bind fun v => ?_
      cases v.truthy with
      | true => exact alike_pure _
      | false => exact alike_pure _

theorem holds (h : Alikes I D E) (e : Option Expr) : Alike I (holds D f e) (holds E f e) := by
  cases e with
  | none => exact alike_pure _
  | some e => exact (h.expr f e).bind fun v => alike_pure _

theorem evalMaybe (h : Alikes I D E) (e : Option Expr) :
    Alike I (evalMaybe D f e) (evalMaybe E f e) := by
  cases e with
  | none => exact alike_pure _
  | some e => exact (h.expr f e).bind fun v => alike_pure _

theorem evalReturn (h : Alikes I D E) (e : Option Expr) :
    Alike I (evalReturn D f e) (evalReturn E f e) := by
  cases e with
  | none => exact alike_pure _
  | some e => exact (h.expr f e).bind fun v => alike_pure _

variable (hI : Memory.Invariant I)

include hI

theorem evalDeclarators (h : Alikes I D E) (kind : DeclKind) (ds : List (String × Option Expr)) :
    Alike I (evalDeclarators D f kind ds) (evalDeclarators E f kind ds) := by
  induction ds with
  | nil => exact alike_pure ()
  | cons d ds ih =>
      obtain ⟨x, init⟩ := d
      have hdeclare (v : Value) (isMutable : Bool) :=
        (alike_declare hI f x v isMutable).bind fun _ => ih
      cases init with
      | none =>
          cases kind with
          | var => exact ih
          | letDecl => exact hdeclare _ true
          | constDecl => exact hdeclare _ false
      | some e =>
          simp only [Eval.evalDeclarators, map_eq_pure_bind, bind_assoc, pure_bind]
          refine (h.expr f e).bind fun v => ?_
          cases kind with
          | var => exact (alike_assign hI f x v).bind fun _ => ih
          | letDecl => exact hdeclare _ true
          | constDecl => exact hdeclare _ false

theorem forPass (h : Alikes I D E) (names : List (String × Bool)) (test update : Option Expr)
    (body : Stmt) (pass : FrameRef × Option Value) :
    Alike I (forPass D f names test update body pass) (forPass E f names test update body pass) := by
  obtain ⟨inner, last⟩ := pass
  refine (h.holds test).bind fun goesOn => ?_
  cases goesOn with
  | false => exact alike_pure _
  | true =>
      refine (h.stmt inner body).bind fun c => ?_
      cases afterPass last c with
      | inr c => exact alike_pure _
      | inl last =>
          refine (alike_nextFrame hI f inner names).bind fun next => ?_
          exact (h.evalMaybe update).bind fun _ => alike_pure _

theorem evalFor (h : Alikes I D E) (init : Option Stmt) (test update : Option Expr) (body : Stmt) :
    Alike I (evalFor D f init test update body) (evalFor E f init test update body) := by
  refine (alike_newFrame hI (some f) false).bind fun inner => ?_
  rw [h.fuel]
  have hpasses := alike_iterate (h.forPass (f := f) hI (loopNames init) test update body) E.fuel
    (inner, none)
  cases init with
  | none => exact hpasses
  | some t => exact (h.stmt inner t).bind fun _ => hpasses

theorem evalBlock (h : Alikes I D E) (body : List Stmt) :
    Alike I (evalBlock D f body) (evalBlock E f body) :=
  (alike_newFrame hI (some f) false).bind fun _ => h.runBody hI body

theorem evalHandler (h : Alikes I D E) (param : String) (body : List Stmt) (e : Fault) :
    Alike I (evalHandler D f param body e) (evalHandler E f param body e) := by
  refine (alike_newFrame hI (some f) false).bind fun inner => ?_
  refine (alike_toValue hI e).bind fun v => ?_
  exact (alike_declare hI inner param v true).bind fun _ => h.runBody hI body

theorem handled (h : Alikes I D E) (handler : Option (String × List Stmt))
    (result : Except Fault Completion) :
    Alike I (handled D f handler result) (handled E f handler result) := by
  cases handler with
  | none => exact alike_pure _
  | some c =>
      cases result with
      | ok c => exact alike_pure _
      | error e =>
          simp only [Eval.handled]
          split
          · exact (h.evalHandler hI c.1 c.2 e).outcome
          · exact alike_pure _

theorem finish (h : Alikes I D E) (result : Except Fault Completion)
    (finalizer : Option (List Stmt)) :
    Alike I (finish D f result finalizer) (finish E f result finalizer) := by
  cases finalizer with
  | none => exact alike_ofExcept result
  | some body =>
      refine (h.evalBlock hI body).bind fun c => ?_
      cases c with
      | normal v => exact alike_ofExcept result
      | returned | broke | continued => exact alike_pure _

theorem evalStmt (h : Alikes I D E) {t : Stmt}
    (ht : ∀ body handler finalizer, t ≠ .tryCatch body handler finalizer) :
    Alike I (evalStmt D f t) (evalStmt E f t) := by
  cases t with
  | decl kind ds => exact (h.evalDeclarators hI kind ds).bind fun _ => alike_pure _
  | function definition => exact alike_pure _
  | ifElse c t e =>
      refine (h.expr f c).bind fun v => ?_
      cases v.truthy with
      | true => exact h.stmt f t
      | false =>
          cases e with
          | none => exact alike_pure _
          | some e => exact h.stmt f e
  | whileLoop c body =>
      simp only [Eval.evalStmt, h.fuel]
      exact alike_iterate (h.whilePass c body) E.fuel none
  | doWhile body c =>
      simp only [Eval.evalStmt, h.fuel]
      exact alike_iterate (h.doPass body c) E.fuel none
  | forLoop init test update body => exact h.evalFor hI init test update body
  | block body => exact h.evalBlock hI body
  | tryCatch body handler finalizer => exact (ht body handler finalizer rfl).elim
  | breakLoop | continueLoop | empty => exact alike_pure _
  | returnValue e => exact h.evalReturn e
  | throw e => exact (h.expr f e).bind fun v => alike_fail _
  | expr e => exact (h.expr f e).bind fun v => alike_pure _

end Statements

end Alikes

section Contexts

variable {D : Context → Evaluator} {E : Evaluator} {f : FrameRef} {host : Host}
  (hI : Memory.Invariant I) (h : ∀ ctx, Alikes I (D ctx) E)

include hI h

/-- What an evaluator that knows the open scopes makes of a call: it looks the function up first. -/
theorem alike_callIn (ctx : Context) (callee : Expr) (args : List Expr) :
    Alike I (callIn host D ctx f callee args) (evalCall host E f callee args) := by
  refine ((h ctx).evalOperands callee args).bind ?_
  rintro ⟨v, vs⟩
  cases v with
  | builtin b => exact alike_evalBuiltin hI host b vs
  | closure c =>
      intro s hs
      exact (h (.call (s.memory.closureAt c).definition :: ctx)).callClosure hI c vs s hs
  | _ => exact alike_fail _

theorem alike_exprIn (ctx : Context) (e : Expr) :
    Alike I (exprIn host D ctx f e) (evalExpr host E f e) := by
  by_cases hcall : ∃ callee args, e = .call callee args
  · obtain ⟨callee, args, rfl⟩ := hcall
    exact alike_callIn hI h ctx callee args
  · have he : ∀ callee args, e ≠ .call callee args := fun callee args h => hcall ⟨callee, args, h⟩
    have hsame : exprIn host D ctx f e = evalExpr host (D ctx) f e := by
      cases e with
      | call callee args => exact (he callee args rfl).elim
      | _ => rfl
    rw [hsame]
    exact (h ctx).evalExpr hI he

theorem alike_stmtIn (ctx : Context) (t : Stmt) :
    Alike I (stmtIn D ctx f t) (evalStmt E f t) := by
  by_cases htry : ∃ body handler finalizer, t = .tryCatch body handler finalizer
  · obtain ⟨body, handler, finalizer, rfl⟩ := htry
    change Alike I (tryIn D ctx f body handler finalizer) (evalTry E f body handler finalizer)
    rw [evalTry, attempt, bind_assoc]
    refine ((h _).evalBlock hI body).outcome.bind fun result => ?_
    exact ((h _).handled hI handler result).bind fun result => (h _).finish hI result finalizer
  · have ht : ∀ body handler finalizer, t ≠ .tryCatch body handler finalizer :=
      fun body handler finalizer h => htry ⟨body, handler, finalizer, h⟩
    have hsame : stmtIn D ctx f t = evalStmt (D (inside ctx t)) f t := by
      cases t with
      | tryCatch body handler finalizer => exact (ht body handler finalizer rfl).elim
      | _ => rfl
    rw [hsame]
    exact (h _).evalStmt hI ht

end Contexts

section Runs

variable {host : Host} {D E : Evaluator}

theorem alike_programResult (c : Completion) : Alike I (programResult c) (programResult c) := by
  cases c with
  | normal v => exact alike_pure v
  | _ => exact (alike_look _).bind fun _ => alike_fail _

theorem alike_echo (interactive : Bool) (v : Option Value) :
    Alike I (Session.echo host interactive v) (Session.echo host interactive v) := by
  cases v with
  | none => exact alike_pure ()
  | some v =>
      cases interactive with
      | false => exact alike_pure ()
      | true => exact (alike_look _).bind fun line => alike_writeLine host line

/-- The moments at which the property does not hold. -/
def failing (I : Memory → Prop) : Moments :=
  ⟨fun _ _ _ _ s => ¬I s.memory, fun _ _ _ _ s => ¬I s.memory⟩

variable (hI : Memory.Invariant I)

include hI

theorem Alikes.runAccepted (h : Alikes I D E) (host : Host) (global : FrameRef)
    (interactive : Bool) (program : Program) :
    Alike I (Session.runAccepted host D global interactive program)
      (Session.runAccepted host E global interactive program) := by
  have hstatements : Alike I (runStatements D global program) (runStatements E global program) :=
    (alike_hoistVars hI global program).bind fun _ => (alike_setDepth 0).bind fun _ =>
      h.runBody hI program
  refine (hstatements.bind alike_programResult).bind fun v => ?_
  exact (alike_echo interactive v).bind fun _ => alike_pure _

theorem alikes_self (host : Host) (n : Nat) : Alikes I (evaluator host n) (evaluator host n) := by
  induction n with
  | zero => exact ⟨rfl, fun _ _ => alike_exhausted, fun _ _ => alike_exhausted⟩
  | succ n ih =>
      refine ⟨rfl, fun f e => ?_, fun f t => ?_⟩
      · have hstep : Alike I (exprIn host (fun _ => evaluator host n) [] f e)
            (evalExpr host (evaluator host n) f e) := alike_exprIn hI (fun _ => ih) [] e
        rwa [exprIn_const] at hstep
      · have hstep := alike_stmtIn (f := f) hI (fun _ => ih) [] t
        rwa [stmtIn_const] at hstep

/-- Whatever would be answered at such moments, nothing comes of it. -/
theorem alikes_watched (host : Host) (A : Evaluator) (Q : Spots) (n : Nat) (ctx : Context) :
    Alikes I (watched host (failing I) A Q n ctx) (diverted host Q halting n) := by
  induction n generalizing ctx with
  | zero => exact ⟨rfl, fun _ _ => alike_exhausted, fun _ _ => alike_exhausted⟩
  | succ n ih =>
      refine ⟨rfl, fun f e s hs => ?_, fun f t s hs => ?_⟩
      · have hnever : ¬(failing I).expr ctx (evaluator host n) f e s := not_not_intro hs
        rw [watched_expr hnever]
        cases hQ : Q.expr (evaluator host n) f e s with
        | true =>
            rw [diverted_expr_spot hQ]
            exact alike_fail _ s hs
        | false =>
            rw [diverted_expr hQ]
            exact alike_exprIn hI ih ctx e s hs
      · have hnever : ¬(failing I).stmt ctx (evaluator host n) f t s := not_not_intro hs
        rw [watched_stmt hnever]
        cases hQ : Q.stmt (evaluator host n) f t s with
        | true =>
            rw [diverted_stmt_spot hQ]
            exact alike_fail _ s hs
        | false =>
            rw [diverted_stmt hQ]
            exact alike_stmtIn hI ih ctx t s hs

end Runs

end Eval

end SmallScript
