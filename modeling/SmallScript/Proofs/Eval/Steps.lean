import SmallScript.Proofs.Eval.Agreement

namespace SmallScript.Eval

open Effect

namespace Comparison

variable {host : Host} {R : Comparison host}

structure Related (R : Comparison host) (D E : Evaluator) : Prop where
  fuel : R.Loops D.fuel E.fuel
  expr : ∀ f e, R.Good (exprParts e) → R.Agree (D.expr f e) (E.expr f e)
  stmt : ∀ p f t, R.Good (stmtParts p t) → R.AgreeOn (R.allowed p) (D.stmt f t) (E.stmt f t)

theorem agree_declare (f : FrameRef) (x : String) (v : Value) (isMutable : Bool) :
    R.Agree (declare f x v isMutable) (declare f x v isMutable) :=
  agree_change fun _ => rfl

theorem agree_blockFrame (f : FrameRef) : R.Agree (blockFrame f) (blockFrame f) :=
  agree_allocate fun _ => rfl

theorem agree_readName (f : FrameRef) (x : String) : R.Agree (readName f x) (readName f x) := by
  apply agree_query
  intro m e h
  rw [Memory.readName] at h
  split at h <;> cases h
  trivial

theorem agree_assign (f : FrameRef) (x : String) (v : Value) :
    R.Agree (assign f x v) (assign f x v) := by
  refine Agree.bind (agree_query ?_) fun f' => agree_change fun _ => rfl
  intro m e h
  rw [Memory.writableFrame] at h
  split at h
  · cases h
  · split at h <;> cases h
    trivial

theorem isOrdinary_getProperty (m : Memory) (v : Value) (key : String) {e : Fault}
    (h : m.getProperty v key = .error e) : e.IsOrdinary := by
  cases v with
  | undefined | null =>
      cases h
      trivial
  | bool | number | object => cases h
  | string | array | builtin | closure =>
      simp only [Memory.getProperty] at h
      split at h
      · cases h
      · split at h <;> cases h

theorem agree_getProperty (v : Value) (key : String) :
    R.Agree (getProperty v key) (getProperty v key) :=
  agree_query fun m _ h => isOrdinary_getProperty m v key h

theorem isOrdinary_arrayLengthOf {x : Float} {e : Fault} (h : arrayLengthOf x = .error e) :
    e.IsOrdinary := by
  rw [arrayLengthOf] at h
  split at h
  · cases h
    trivial
  · split at h
    · cases h
      trivial
    · split at h <;> cases h
      trivial

theorem isOrdinary_arrayPlace (m : Memory) (a : ArrayRef) (key : String) (v : Value) {e : Fault}
    (h : m.arrayPlace a key v = .error e) : e.IsOrdinary := by
  rw [Memory.arrayPlace] at h
  split at h
  · cases hn : arrayLengthOf (m.toNumber v) with
    | ok n => simp [hn, Except.map] at h
    | error e' =>
        rw [hn] at h
        cases h
        exact isOrdinary_arrayLengthOf hn
  · split at h
    · cases h
    · split at h <;> cases h
      trivial

theorem isOrdinary_placeOf (m : Memory) (base : Value) (key : String) (v : Value) {e : Fault}
    (h : m.placeOf base key v = .error e) : e.IsOrdinary := by
  cases base with
  | array a => exact isOrdinary_arrayPlace m a key v h
  | undefined | null =>
      cases h
      trivial
  | _ => cases h

theorem agree_setProperty (base : Value) (key : String) (v : Value) :
    R.Agree (setProperty base key v) (setProperty base key v) := by
  refine Agree.bind (agree_query ?_) fun place => agree_change fun m => m.closures_write v place
  intro m e h
  exact isOrdinary_placeOf m base key v h

theorem agree_hoistVars (f : FrameRef) (body : List Stmt) :
    R.Agree (hoistVars f body) (hoistVars f body) := by
  apply agree_change
  intro m
  induction varNames.varNamesOf body generalizing m with
  | nil => rfl
  | cons x xs ih => exact (ih _).trans (m.closures_declareVar f x)

theorem agree_hoistFunctions (p : Place) (f : FrameRef) (body : List Stmt)
    (hbody : R.Good (stmtsParts p body)) :
    R.Agree (hoistFunctions f body) (hoistFunctions f body) := by
  induction body with
  | nil => exact agree_pure trivial
  | cons t body ih =>
      rw [stmtsParts, R.good_append] at hbody
      cases t with
      | function definition =>
          rw [stmtParts, R.good_cons] at hbody
          rw [hoistFunctions]
          cases definition.name with
          | none => exact ih hbody.2
          | some x =>
              exact (agree_newClosure hbody.1.2 f).bind fun v =>
                (agree_declare f x v true).bind fun _ => ih hbody.2
      | _ => exact ih hbody.2

theorem agree_bindParams (f : FrameRef) (xs : List String) (args : List Value) :
    R.Agree (bindParams f xs args) (bindParams f xs args) := by
  induction xs generalizing args with
  | nil => exact agree_pure trivial
  | cons x xs ih => exact (agree_declare f x _ true).bind fun _ => ih args.tail

theorem agree_copyNames (source target : FrameRef) (xs : List (String × Bool)) :
    R.Agree (copyNames source target xs) (copyNames source target xs) := by
  induction xs with
  | nil => exact agree_pure trivial
  | cons x xs ih =>
      exact (agree_look _).bind fun v => (agree_declare target x.1 v x.2).bind fun _ => ih

theorem agree_nextFrame (f inner : FrameRef) (names : List (String × Bool)) :
    R.Agree (nextFrame f inner names) (nextFrame f inner names) := by
  cases names with
  | nil => exact agree_pure trivial
  | cons x xs =>
      exact (agree_blockFrame f).bind fun next =>
        (agree_copyNames inner next (x :: xs)).bind fun _ => agree_pure trivial

theorem agree_evalBuiltin (b : Builtin) (args : List Value) :
    R.Agree (evalBuiltin host b args) (evalBuiltin host b args) := by
  cases b with
  | log | print =>
      exact (agree_look _).bind fun line => (agree_writeLine line).bind fun _ => agree_pure trivial
  | failTest => exact (agree_look _).bind fun text => agree_fail (R.admits_ordinary _ trivial)
  | isNaN | isFinite =>
      simp only [evalBuiltin]
      exact agree_look _
  | toText =>
      cases args with
      | nil => exact agree_pure trivial
      | cons v args => exact (agree_look _).bind fun text => agree_pure trivial
  | toNumber =>
      cases args with
      | nil => exact agree_pure trivial
      | cons v args =>
          simp only [evalBuiltin]
          exact agree_look _
  | toBoolean => exact agree_pure trivial
  | error c =>
      have hnew (message : String) : R.Agree (newError c.name message) (newError c.name message) :=
        agree_allocate fun _ => rfl
      simp only [evalBuiltin]
      cases args.headD .undefined with
      | undefined => exact hnew ""
      | _ => exact (agree_look _).bind fun message => hnew message

variable {D E : Evaluator}

theorem Related.evalList (h : R.Related D E) (f : FrameRef) (es : List Expr)
    (hes : R.Good (exprsParts es)) : R.Agree (evalList D f es) (evalList E f es) := by
  induction es with
  | nil => exact agree_pure trivial
  | cons e es ih =>
      rw [exprsParts, R.good_append] at hes
      exact (h.expr f e hes.1).bind fun v => (ih hes.2).bind fun vs => agree_pure trivial

theorem Related.evalProperties (h : R.Related D E) (f : FrameRef) (t : Table Value)
    (ps : List (String × Expr)) (hps : R.Good (propertyParts ps)) :
    R.Agree (evalProperties D f t ps) (evalProperties E f t ps) := by
  induction ps generalizing t with
  | nil => exact agree_pure trivial
  | cons p ps ih =>
      obtain ⟨k, e⟩ := p
      rw [propertyParts, R.good_append] at hps
      exact (h.expr f e hps.1).bind fun v => ih (t.set k v) hps.2

theorem agree_evalFunction (f : FrameRef) (definition : Function)
    (hd : R.Good (functionParts definition)) :
    R.Agree (evalFunction f definition) (evalFunction f definition) := by
  rw [evalFunction]
  cases definition.name with
  | none => exact agree_newClosure hd f
  | some x =>
      exact (agree_blockFrame f).bind fun inner => (agree_newClosure hd inner).bind fun v =>
        (agree_declare inner x v true).bind fun _ => agree_pure trivial

theorem Related.evalTarget (h : R.Related D E) (f : FrameRef) (e : Expr)
    (he : R.Good (exprParts e)) (ht : e.isTarget = true ∨ R.admits .assignTarget) :
    R.Agree (evalTarget D f e) (evalTarget E f e) := by
  fun_induction Expr.isTarget e with
  | case1 x => exact agree_pure trivial
  | case2 o x =>
      rw [exprParts, R.good_cons] at he
      exact (h.expr f o he.2).bind fun base => agree_pure trivial
  | case3 o k =>
      rw [exprParts, R.good_cons, R.good_append] at he
      exact (h.expr f o he.2.1).bind fun base => (h.expr f k he.2.2).bind fun v =>
        (agree_look _).bind fun key => agree_pure trivial
  | case4 e ih =>
      rw [exprParts, R.good_cons] at he
      exact ih he.2 ht
  | case5 e hident hfield hindex hparen =>
      have ha := ht.resolve_left Bool.false_ne_true
      cases e with
      | ident x => exact (hident x rfl).elim
      | field o x => exact (hfield o x rfl).elim
      | index o k => exact (hindex o k rfl).elim
      | paren e => exact (hparen e rfl).elim
      | _ => exact agree_fail ha

theorem agree_read (f : FrameRef) (target : Target) :
    R.Agree (target.read f) (target.read f) := by
  cases target with
  | name x => exact agree_readName f x
  | property base key => exact agree_getProperty base key

theorem agree_write (f : FrameRef) (v : Value) (target : Target) :
    R.Agree (target.write f v) (target.write f v) := by
  cases target with
  | name x => exact agree_assign f x v
  | property base key => exact agree_setProperty base key v

theorem Related.evalUpdate (h : R.Related D E) (f : FrameRef) (op : UpdateOp) (e : Expr)
    (he : R.Good (exprParts (.update op e))) :
    R.Agree (evalUpdate D f op e) (evalUpdate E f op e) := by
  rw [exprParts, R.good_cons] at he
  refine (h.evalTarget f e he.2 (R.admits_update op e he.1)).bind fun target => ?_
  refine (agree_read f target).bind fun old => ?_
  refine (agree_look _).bind fun x => ?_
  exact (agree_write f _ target).bind fun _ => agree_pure trivial

theorem Related.evalAssign (h : R.Related D E) (f : FrameRef) (op : AssignOp) (l r : Expr)
    (he : R.Good (exprParts (.assign op l r))) :
    R.Agree (evalAssign D f op l r) (evalAssign E f op l r) := by
  rw [exprParts, R.good_cons, R.good_append] at he
  refine (h.evalTarget f l he.2.1 (R.admits_assign op l r he.1)).bind fun target => ?_
  have hstore (v : Value) : R.Agree (do target.write f v; return v) (do target.write f v; return v) :=
    (agree_write f v target).bind fun _ => agree_pure trivial
  cases op with
  | set => exact (h.expr f r he.2.2).bind hstore
  | _ =>
      refine (agree_read f target).bind fun old => ?_
      refine (h.expr f r he.2.2).bind fun new => ?_
      exact (agree_look _).bind hstore

theorem Related.evalBinary (h : R.Related D E) (f : FrameRef) (op : BinaryOp) (l r : Expr)
    (he : R.Good (exprParts (.binary op l r))) :
    R.Agree (evalBinary D f op l r) (evalBinary E f op l r) := by
  rw [exprParts, R.good_cons, R.good_append] at he
  have hr := h.expr f r he.2.2
  refine (h.expr f l he.2.1).bind fun v => ?_
  cases op with
  | and => cases v.truthy with
    | true => exact hr
    | false => exact agree_pure trivial
  | or => cases v.truthy with
    | true => exact agree_pure trivial
    | false => exact hr
  | _ => exact hr.bind fun w => agree_query fun _ _ h => by cases h

theorem Related.evalUnary (h : R.Related D E) (f : FrameRef) (op : UnaryOp) (e : Expr)
    (he : R.Good (exprParts (.unary op e))) :
    R.Agree (evalUnary D f op e) (evalUnary E f op e) := by
  rw [exprParts, R.good_cons] at he
  have hrest (unbound : Bool) :
      R.Agree
        (if unbound then return .string "undefined"
          else D.expr f e >>= fun v => look fun m => m.unary op v)
        (if unbound then return .string "undefined"
          else E.expr f e >>= fun v => look fun m => m.unary op v) := by
    cases unbound with
    | true => exact agree_pure trivial
    | false => exact (h.expr f e he.2).bind fun v => agree_look _
  unfold Eval.evalUnary
  split
  · exact (agree_look _).bind hrest
  · exact Agree.bind (agree_pure trivial) hrest

theorem Related.evalIndex (h : R.Related D E) (f : FrameRef) (e k : Expr)
    (he : R.Good (exprParts (.index e k))) : R.Agree (evalIndex D f e k) (evalIndex E f e k) := by
  rw [exprParts, R.good_cons, R.good_append] at he
  refine (h.expr f e he.2.1).bind fun base => ?_
  refine (h.expr f k he.2.2).bind fun v => ?_
  exact (agree_look _).bind fun key => agree_getProperty base key

theorem Related.runInOrder (h : R.Related D E) (p : Place) (f : FrameRef) (last : Option Value)
    (ts : List Stmt) (hts : R.Good (stmtsParts p ts)) :
    R.AgreeOn (R.allowed p) (runInOrder D f last ts) (runInOrder E f last ts) := by
  induction ts generalizing last with
  | nil => exact agree_pure (R.allowed_normal p last)
  | cons t ts ih =>
      rw [stmtsParts, R.good_append] at hts
      apply (h.stmt p f t hts.1).bind
      intro c hc
      cases c with
      | normal v => exact ih (v <|> last) hts.2
      | returned v => exact agree_pure hc
      | broke => exact agree_pure hc
      | continued => exact agree_pure hc

theorem Related.runBody (h : R.Related D E) (p : Place) (f : FrameRef) (body : List Stmt)
    (hbody : R.Good (stmtsParts p body)) :
    R.AgreeOn (R.allowed p) (runBody D f body) (runBody E f body) :=
  (agree_hoistFunctions p f body hbody).bind fun _ => h.runInOrder p f none body hbody

/-- Calls run bodies within the contract, since it holds of every closure in memory. -/
theorem Related.callBody (h : R.Related D E) (c : ClosureRef) (args : List Value) :
    R.AgreeOn (R.allowed .body) (callBody D c args) (callBody E c args) := by
  apply (agree_closureAt c).bind
  rintro ⟨⟨x, params, body⟩, scope⟩ hparts
  rw [functionParts, R.good_cons] at hparts
  refine Agree.bind (agree_allocate fun _ => rfl) fun f => ?_
  refine (agree_bindParams f params args).bind fun _ => ?_
  refine (agree_hoistVars f body).bind fun _ => ?_
  exact (h.runBody .body f body hparts.2).deeper

theorem agree_callResult {c : Completion} (hc : R.allowed .body c) :
    R.Agree (callResult c) (callResult c) := by
  cases c with
  | normal v => exact agree_pure trivial
  | returned v => exact agree_pure trivial
  | broke => exact agree_fail (R.admits_body _ hc (.inl rfl))
  | continued => exact agree_fail (R.admits_body _ hc (.inr rfl))

theorem Related.callClosure (h : R.Related D E) (c : ClosureRef) (args : List Value) :
    R.Agree (callClosure host D c args) (callClosure host E c args) := by
  refine agree_depth.bind fun n => ?_
  split
  · exact agree_fail (R.admits_ordinary _ trivial)
  · exact (h.callBody c args).bind fun c hc => agree_callResult hc

theorem Related.evalOperands (h : R.Related D E) (f : FrameRef) (callee : Expr)
    (args : List Expr) (hc : R.Good (exprParts callee)) (ha : R.Good (exprsParts args)) :
    R.Agree (evalOperands D f callee args) (evalOperands E f callee args) := by
  refine (h.expr f callee hc).bind fun v => ?_
  exact (h.evalList f args ha).bind fun vs => agree_pure trivial

theorem Related.evalCall (h : R.Related D E) (f : FrameRef) (callee : Expr) (args : List Expr)
    (hc : R.Good (exprParts callee)) (ha : R.Good (exprsParts args)) :
    R.Agree (evalCall host D f callee args) (evalCall host E f callee args) := by
  refine (h.evalOperands f callee args hc ha).bind ?_
  rintro ⟨v, vs⟩
  cases v with
  | builtin b => exact agree_evalBuiltin b vs
  | closure c => exact h.callClosure c vs
  | _ => exact agree_fail (R.admits_ordinary _ trivial)

theorem Related.evalNew (h : R.Related D E) (f : FrameRef) (callee : Expr) (args : List Expr)
    (hc : R.Good (exprParts callee)) (ha : R.Good (exprsParts args)) :
    R.Agree (evalNew host D f callee args) (evalNew host E f callee args) := by
  refine (h.evalOperands f callee args hc ha).bind ?_
  rintro ⟨v, vs⟩
  have hfail : R.Agree (fail (α := Value) (.notConstructor (describe callee)))
      (fail (.notConstructor (describe callee))) :=
    agree_fail (R.admits_ordinary _ trivial)
  cases v with
  | builtin b =>
      simp only
      split
      · exact agree_evalBuiltin b vs
      · exact hfail
  | _ => exact hfail

theorem Related.evalExpr (h : R.Related D E) (f : FrameRef) (e : Expr)
    (he : R.Good (exprParts e)) : R.Agree (evalExpr host D f e) (evalExpr host E f e) := by
  cases e with
  | ident x => exact agree_readName f x
  | number x => exact agree_pure trivial
  | bool b => exact agree_pure trivial
  | null => exact agree_pure trivial
  | string s => exact agree_pure trivial
  | paren e =>
      rw [exprParts, R.good_cons] at he
      exact h.expr f e he.2
  | array items =>
      rw [exprParts, R.good_cons] at he
      exact (h.evalList f items he.2).bind fun vs => agree_allocate fun _ => rfl
  | object properties =>
      rw [exprParts, R.good_cons] at he
      exact (h.evalProperties f [] properties he.2).bind fun t => agree_allocate fun _ => rfl
  | function definition =>
      rw [exprParts, R.good_cons] at he
      exact agree_evalFunction f definition he.2
  | field e x =>
      rw [exprParts, R.good_cons] at he
      exact (h.expr f e he.2).bind fun base => agree_getProperty base x
  | index e k => exact h.evalIndex f e k he
  | call callee args =>
      rw [exprParts, R.good_cons, R.good_append] at he
      exact h.evalCall f callee args he.2.1 he.2.2
  | new callee args =>
      rw [exprParts, R.good_cons, R.good_append] at he
      exact h.evalNew f callee args he.2.1 he.2.2
  | binary op l r => exact h.evalBinary f op l r he
  | unary op e => exact h.evalUnary f op e he
  | update op e => exact h.evalUpdate f op e he
  | assign op l r => exact h.evalAssign f op l r he
  | cond c t e =>
      simp only [exprParts, R.good_cons, R.good_append] at he
      apply (h.expr f c he.2.1.1).bind
      intro v
      cases v.truthy with
      | true => exact h.expr f t he.2.1.2
      | false => exact h.expr f e he.2.2

theorem Related.evalDeclarators (h : R.Related D E) (f : FrameRef) (kind : DeclKind)
    (ds : List (String × Option Expr)) (hds : R.Good (declaratorParts ds)) :
    R.Agree (evalDeclarators D f kind ds) (evalDeclarators E f kind ds) := by
  induction ds with
  | nil => exact agree_pure trivial
  | cons d ds ih =>
      obtain ⟨x, init⟩ := d
      rw [declaratorParts, R.good_append] at hds
      have hrest := ih hds.2
      have hdeclare (v : Value) (isMutable : Bool) :=
        (agree_declare (R := R) f x v isMutable).bind fun _ => hrest
      cases init with
      | none =>
          cases kind with
          | var => exact hrest
          | letDecl => exact hdeclare _ true
          | constDecl => exact hdeclare _ false
      | some e =>
          simp only [Eval.evalDeclarators, map_eq_pure_bind, bind_assoc, pure_bind]
          refine (h.expr f e hds.1).bind fun v => ?_
          cases kind with
          | var => exact (agree_assign f x v).bind fun _ => hrest
          | letDecl => exact hdeclare _ true
          | constDecl => exact hdeclare _ false

theorem passes_afterPass (p : Place) (last : Option Value) {c : Completion}
    (hc : R.allowed p.loop c) : R.Passes p (afterPass last c) := by
  cases c with
  | normal v => trivial
  | continued => trivial
  | broke => exact R.allowed_normal p last
  | returned v => exact R.allowed_loop p v hc

theorem Related.whilePass (h : R.Related D E) (p : Place) (f : FrameRef) (test : Expr)
    (body : Stmt) (ht : R.Good (exprParts test)) (hb : R.Good (stmtParts p.loop body))
    (last : Option Value) :
    R.AgreeOn (R.Passes p) (whilePass D f test body last) (whilePass E f test body last) := by
  apply (h.expr f test ht).bind
  intro v
  cases v.truthy with
  | true =>
      exact (h.stmt p.loop f body hb).bind fun c hc => agree_pure (passes_afterPass p last hc)
  | false => exact agree_pure (R.allowed_normal p last)

theorem Related.doPass (h : R.Related D E) (p : Place) (f : FrameRef) (body : Stmt)
    (test : Expr) (hb : R.Good (stmtParts p.loop body)) (ht : R.Good (exprParts test))
    (last : Option Value) :
    R.AgreeOn (R.Passes p) (doPass D f body test last) (doPass E f body test last) := by
  apply (h.stmt p.loop f body hb).bind
  intro c hc
  have hpass := passes_afterPass p last hc
  cases hl : afterPass last c with
  | inr c =>
      rw [hl] at hpass
      exact agree_pure hpass
  | inl last =>
      apply (h.expr f test ht).bind
      intro v
      cases v.truthy with
      | true => exact agree_pure trivial
      | false => exact agree_pure (R.allowed_normal p last)

theorem Related.holds (h : R.Related D E) (f : FrameRef) (e : Option Expr)
    (he : R.Good (maybeExprParts e)) : R.Agree (holds D f e) (holds E f e) := by
  cases e with
  | none => exact agree_pure trivial
  | some e => exact (h.expr f e he).bind fun v => agree_pure trivial

theorem Related.evalMaybe (h : R.Related D E) (f : FrameRef) (e : Option Expr)
    (he : R.Good (maybeExprParts e)) : R.Agree (evalMaybe D f e) (evalMaybe E f e) := by
  cases e with
  | none => exact agree_pure trivial
  | some e => exact (h.expr f e he).bind fun v => agree_pure trivial

theorem Related.forPass (h : R.Related D E) (p : Place) (f : FrameRef)
    (names : List (String × Bool)) (test update : Option Expr) (body : Stmt)
    (ht : R.Good (maybeExprParts test)) (hu : R.Good (maybeExprParts update))
    (hb : R.Good (stmtParts p.loop body)) (pass : FrameRef × Option Value) :
    R.AgreeOn (R.Passes p) (forPass D f names test update body pass)
      (forPass E f names test update body pass) := by
  obtain ⟨inner, last⟩ := pass
  apply (h.holds inner test ht).bind
  intro goesOn
  cases goesOn with
  | false => exact agree_pure (R.allowed_normal p last)
  | true =>
      apply (h.stmt p.loop inner body hb).bind
      intro c hc
      have hpass := passes_afterPass p last hc
      cases hl : afterPass last c with
      | inr c =>
          rw [hl] at hpass
          exact agree_pure hpass
      | inl last =>
          exact (agree_nextFrame f inner names).bind fun next =>
            (h.evalMaybe next update hu).bind fun _ => agree_pure trivial

theorem Related.evalFor (h : R.Related D E) (p : Place) (f : FrameRef) (init : Option Stmt)
    (test update : Option Expr) (body : Stmt)
    (ht : R.Good (stmtParts p (.forLoop init test update body))) :
    R.AgreeOn (R.allowed p) (evalFor D f init test update body)
      (evalFor E f init test update body) := by
  simp only [stmtParts, R.good_cons, R.good_append] at ht
  obtain ⟨-, -, ⟨⟨hinit, htest⟩, hupdate⟩, hbody⟩ := ht
  refine (agree_blockFrame f).bind fun inner => ?_
  have hloop := agree_iterate
    (h.forPass p f (loopNames init) test update body htest hupdate hbody) h.fuel (inner, none)
  cases init with
  | none => exact hloop
  | some t => exact (h.stmt p inner t hinit).bind fun _ _ => hloop

theorem Related.evalBlock (h : R.Related D E) (p : Place) (f : FrameRef) (body : List Stmt)
    (hbody : R.Good (stmtsParts p body)) :
    R.AgreeOn (R.allowed p) (evalBlock D f body) (evalBlock E f body) :=
  (agree_blockFrame f).bind fun inner => h.runBody p inner body hbody

theorem Related.evalHandler (h : R.Related D E) (p : Place) (f : FrameRef) (param : String)
    (body : List Stmt) (hbody : R.Good (stmtsParts p body)) (e : Fault) :
    R.AgreeOn (R.allowed p) (evalHandler D f param body e) (evalHandler E f param body e) := by
  refine (agree_blockFrame f).bind fun inner => ?_
  refine Agree.bind (agree_allocate fun m => e.closures_toValue m) fun v => ?_
  exact (agree_declare inner param v true).bind fun _ => h.runBody p inner body hbody

theorem Related.handled (h : R.Related D E) (hR : R.Catches) (p : Place) (f : FrameRef)
    (handler : Option (String × List Stmt))
    (hh : ∀ param body, handler = some (param, body) → R.Good (stmtsParts p body))
    {result : Except Fault Completion} (hresult : R.Result (R.allowed p) result) :
    R.AgreeOn (R.Result (R.allowed p)) (handled D f handler result)
      (handled E f handler result) := by
  unfold Eval.handled
  split
  · rename_i param body e
    split
    · exact (h.evalHandler p f param body (hh param body rfl) e).outcome hR
    · exact agree_pure hresult
  · exact agree_pure hresult

theorem good_tryCatch {p : Place} {body : List Stmt} {handler : Option (String × List Stmt)}
    {finalizer : Option (List Stmt)}
    (ht : R.Good (stmtParts p (.tryCatch body handler finalizer))) :
    R.Good (stmtsParts p body) ∧
      (∀ param body, handler = some (param, body) → R.Good (stmtsParts p body)) ∧
      ∀ body, finalizer = some body → R.Good (stmtsParts p body) := by
  rcases handler with _ | ⟨param, handler⟩ <;> cases finalizer <;>
    simp only [stmtParts, R.good_cons, R.good_append] at ht <;> simp [ht]

theorem Related.attempt (h : R.Related D E) (hR : R.Catches) (p : Place) (f : FrameRef)
    (body : List Stmt) (handler : Option (String × List Stmt)) (hbody : R.Good (stmtsParts p body))
    (hh : ∀ param body, handler = some (param, body) → R.Good (stmtsParts p body)) :
    R.AgreeOn (R.Result (R.allowed p)) (attempt D f body handler) (attempt E f body handler) :=
  ((h.evalBlock p f body hbody).outcome hR).bind fun _ hresult => h.handled hR p f handler hh hresult

theorem Related.finish (h : R.Related D E) (p : Place) (f : FrameRef)
    {result : Except Fault Completion} (hresult : R.Result (R.allowed p) result)
    (finalizer : Option (List Stmt))
    (hf : ∀ body, finalizer = some body → R.Good (stmtsParts p body)) :
    R.AgreeOn (R.allowed p) (finish D f result finalizer) (finish E f result finalizer) := by
  cases finalizer with
  | none => exact agree_ofExcept hresult
  | some body =>
      apply (h.evalBlock p f body (hf body rfl)).bind
      intro c hc
      cases c with
      | normal v => exact agree_ofExcept hresult
      | returned v => exact agree_pure hc
      | broke => exact agree_pure hc
      | continued => exact agree_pure hc

theorem Related.evalTry (h : R.Related D E) (hR : R.Catches) (p : Place) (f : FrameRef)
    (body : List Stmt) (handler : Option (String × List Stmt)) (finalizer : Option (List Stmt))
    (ht : R.Good (stmtParts p (.tryCatch body handler finalizer))) :
    R.AgreeOn (R.allowed p) (evalTry D f body handler finalizer)
      (evalTry E f body handler finalizer) := by
  obtain ⟨hbody, hhandler, hfinalizer⟩ := good_tryCatch ht
  exact (h.attempt hR p f body handler hbody hhandler).bind fun result hresult =>
    h.finish p f hresult finalizer hfinalizer

theorem Related.evalReturn (h : R.Related D E) (p : Place) (f : FrameRef) (e : Option Expr)
    (ht : R.Good (stmtParts p (.returnValue e))) :
    R.AgreeOn (R.allowed p) (evalReturn D f e) (evalReturn E f e) := by
  rw [stmtParts, R.good_cons] at ht
  cases e with
  | none => exact agree_pure (R.allowed_returned p _ _ ht.1)
  | some e =>
      exact (h.expr f e ht.2).bind fun v => agree_pure (R.allowed_returned p _ _ ht.1)

theorem Related.evalStmt (h : R.Related D E) (p : Place) (f : FrameRef) (t : Stmt)
    (ht : R.Good (stmtParts p t))
    (htry : ∀ body handler finalizer, t = .tryCatch body handler finalizer →
      R.AgreeOn (R.allowed p) (Eval.evalTry D f body handler finalizer)
        (Eval.evalTry E f body handler finalizer)) :
    R.AgreeOn (R.allowed p) (evalStmt D f t) (evalStmt E f t) := by
  have hnormal : R.AgreeOn (R.allowed p) (pure (.normal none)) (pure (.normal none)) :=
    agree_pure (R.allowed_normal p none)
  cases t with
  | decl kind ds =>
      rw [stmtParts, R.good_cons] at ht
      exact (h.evalDeclarators f kind ds ht.2).bind fun _ => hnormal
  | function definition => exact hnormal
  | ifElse c t e =>
      cases e with
      | none =>
          rw [stmtParts, R.good_cons, R.good_append] at ht
          apply (h.expr f c ht.2.1).bind
          intro v
          cases v.truthy with
          | true => exact h.stmt p f t ht.2.2
          | false => exact hnormal
      | some e =>
          rw [stmtParts, R.good_cons, R.good_append, R.good_append] at ht
          apply (h.expr f c ht.2.1.1).bind
          intro v
          cases v.truthy with
          | true => exact h.stmt p f t ht.2.1.2
          | false => exact h.stmt p f e ht.2.2
  | whileLoop c body =>
      rw [stmtParts, R.good_cons, R.good_append] at ht
      exact agree_iterate (h.whilePass p f c body ht.2.1 ht.2.2) h.fuel none
  | doWhile body c =>
      rw [stmtParts, R.good_cons, R.good_append] at ht
      exact agree_iterate (h.doPass p f body c ht.2.1 ht.2.2) h.fuel none
  | forLoop init test update body => exact h.evalFor p f init test update body ht
  | block body =>
      rw [stmtParts, R.good_cons, R.good_cons] at ht
      exact h.evalBlock p f body ht.2.2
  | tryCatch body handler finalizer => exact htry body handler finalizer rfl
  | breakLoop => exact agree_pure (R.allowed_broke p (by simpa [stmtParts] using ht))
  | continueLoop => exact agree_pure (R.allowed_continued p (by simpa [stmtParts] using ht))
  | returnValue e => exact h.evalReturn p f e ht
  | throw e =>
      rw [stmtParts, R.good_cons] at ht
      exact (h.expr f e ht.2).bind fun v => agree_fail (R.admits_ordinary _ trivial)
  | expr e =>
      rw [stmtParts, R.good_cons] at ht
      exact (h.expr f e ht.2).bind fun v => agree_pure (R.allowed_normal p (some v))
  | empty => exact hnormal

theorem Related.runStatements (h : R.Related D E) (global : FrameRef) (program : Program)
    (hp : R.Good (stmtsParts .top program)) :
    R.AgreeOn (R.allowed .top) (runStatements D global program) (runStatements E global program) :=
  (agree_hoistVars global program).bind fun _ => (agree_setDepth 0).bind fun _ =>
    h.runBody .top global program hp

theorem agree_programResult {c : Completion} (hc : R.allowed .top c) :
    R.Agree (programResult c) (programResult c) := by
  cases c with
  | normal v => exact agree_pure trivial
  | _ =>
      apply agreeOn_self
      intro s hs
      refine ⟨hs, (R.admits_top _ s.memory hc).resolve_left ?_⟩
      rintro ⟨v, hv⟩
      cases hv

theorem Related.run (h : R.Related D E) (global : FrameRef) (program : Program)
    (hp : R.Good (stmtsParts .top program)) : R.Agree (run D global program) (run E global program) :=
  (h.runStatements global program hp).bind fun _ hc => agree_programResult hc

/-- Evaluators agree that take their answers from a step over evaluators that agree, wherever they
do not agree by themselves. -/
theorem Related.step (h : R.Related D E) {D' E' : Evaluator} (hfuel : R.Loops D'.fuel E'.fuel)
    (hexpr : ∀ f e, R.Good (exprParts e) → ∀ s, R.Holds s →
      (D'.expr f e s = Eval.evalExpr host D f e s ∧ E'.expr f e s = Eval.evalExpr host E f e s) ∨
        R.like (D'.expr f e s) (E'.expr f e s) ∧ R.Ends (fun _ => True) (E'.expr f e s))
    (hstmt : ∀ p f t, R.Good (stmtParts p t) → ∀ s, R.Holds s →
      (D'.stmt f t s = Eval.evalStmt D f t s ∧ E'.stmt f t s = Eval.evalStmt E f t s) ∨
        R.like (D'.stmt f t s) (E'.stmt f t s) ∧ R.Ends (R.allowed p) (E'.stmt f t s))
    (hR : R.Catches) : R.Related D' E' where
  fuel := hfuel
  expr f e he s hs := by
    rcases hexpr f e he s hs with ⟨hD, hE⟩ | hlike
    · rw [hD, hE]
      exact h.evalExpr f e he s hs
    · exact hlike
  stmt p f t ht s hs := by
    rcases hstmt p f t ht s hs with ⟨hD, hE⟩ | hlike
    · rw [hD, hE]
      refine h.evalStmt p f t ht ?_ s hs
      rintro body handler finalizer rfl
      exact h.evalTry hR p f body handler finalizer ht
    · exact hlike

end Comparison

end SmallScript.Eval
