import SmallScript.Eval.Program
import SmallScript.Proofs.Strip.Memory
import SmallScript.Proofs.Outcome

namespace SmallScript

open Effect

namespace Effect

variable {α β γ : Type}

/-- What `y` does in the memory without parentheses is what `x` does. -/
def Mirrors (y x : Effect α) : Prop := ∀ s : State, y s.strip = (x s).mapState State.strip

theorem Mirrors.bind {y x : Effect α} {g f : α → Effect β} (h : Mirrors y x)
    (hf : ∀ a, Mirrors (g a) (f a)) : Mirrors (y >>= g) (x >>= f) := by
  intro s
  rw [bind_apply, bind_apply, h s]
  cases x s with
  | done a s => exact hf a s
  | fail e s => rfl
  | exhausted => rfl

theorem mirrors_pure (a : α) : Mirrors (pure a) (pure a) := fun _ => rfl

theorem mirrors_fail (e : Fault) : Mirrors (α := α) (fail e) (fail e) := fun _ => rfl

theorem mirrors_exhausted : Mirrors (α := α) (fun _ => .exhausted) (fun _ => .exhausted) :=
  fun _ => rfl

theorem mirrors_look {f : Memory → α} (h : ∀ m, f m.strip = f m) : Mirrors (look f) (look f) :=
  fun s => congrArg (Outcome.done · s.strip) (h s.memory)

theorem mirrors_ofExcept (r : Except Fault α) : Mirrors (ofExcept r) (ofExcept r) := by
  cases r <;> exact fun _ => rfl

theorem mirrors_query {f : Memory → Except Fault α} (h : ∀ m, f m.strip = f m) :
    Mirrors (query f) (query f) := by
  intro s
  exact (congrArg (ofExcept · s.strip) (h s.memory)).trans (mirrors_ofExcept _ s)

theorem mirrors_change {f : Memory → Memory} (h : ∀ m, f m.strip = (f m).strip) :
    Mirrors (change f) (change f) := by
  intro ⟨memory, output, writes, depth⟩
  exact congrArg (fun m => Outcome.done () (State.mk m output writes depth)) (h memory)

theorem mirrors_allocate {g f : Memory → α × Memory}
    (h : ∀ m, g m.strip = ((f m).1, (f m).2.strip)) : Mirrors (allocate g) (allocate f) := by
  intro ⟨memory, output, writes, depth⟩
  exact congrArg (fun p => Outcome.done p.1 (State.mk p.2 output writes depth)) (h memory)

theorem mirrors_depth : Mirrors depth depth := fun _ => rfl

theorem mirrors_setDepth (n : Nat) : Mirrors (setDepth n) (setDepth n) := fun _ => rfl

theorem Mirrors.deeper {y x : Effect α} (h : Mirrors y x) : Mirrors (deeper y) (deeper x) := by
  intro s
  have hs := h { s with depth := s.depth + 1 }
  rw [deeper_apply, deeper_apply, Outcome.mapState_mapState]
  refine (congrArg (Outcome.mapState State.leave) hs).trans ?_
  rw [Outcome.mapState_mapState]
  rfl

theorem Mirrors.outcome {y x : Effect α} (h : Mirrors y x) : Mirrors (outcome y) (outcome x) := by
  intro s
  rw [outcome_apply, outcome_apply, h s]
  cases x s <;> rfl

theorem mirrors_writeLine (host : Host) (line : String) :
    Mirrors (writeLine host line) (writeLine host line) := by
  intro s
  simp only [writeLine, State.strip]
  cases host.sinkFault s.writes <;> rfl

theorem mirrors_iterate {step' step : β → Effect (β ⊕ γ)} (h : ∀ b, Mirrors (step' b) (step b))
    (n : Nat) (b : β) : Mirrors (iterate step' n b) (iterate step n b) := by
  induction n generalizing b with
  | zero => exact mirrors_exhausted
  | succ n ih =>
      rw [iterate_succ, iterate_succ]
      refine (h b).bind fun r => ?_
      cases r with
      | inl b => exact ih b
      | inr c => exact mirrors_pure c

theorem mirrors_getProperty (v : Value) (key : String) :
    Mirrors (getProperty v key) (getProperty v key) :=
  mirrors_query fun m => m.getProperty_strip v key

theorem mirrors_setProperty (base : Value) (key : String) (v : Value) :
    Mirrors (setProperty base key v) (setProperty base key v) :=
  (mirrors_query fun m => m.placeOf_strip base key v).bind fun place =>
    mirrors_change fun m => m.write_strip v place

theorem mirrors_readName (f : FrameRef) (x : String) : Mirrors (readName f x) (readName f x) :=
  mirrors_query fun m => m.readName_strip f x

theorem mirrors_declare (f : FrameRef) (x : String) (v : Value) (isMutable : Bool) :
    Mirrors (declare f x v isMutable) (declare f x v isMutable) :=
  mirrors_change fun _ => rfl

theorem mirrors_assign (f : FrameRef) (x : String) (v : Value) :
    Mirrors (assign f x v) (assign f x v) :=
  (mirrors_query fun m => m.writableFrame_strip f x).bind fun f' => mirrors_declare f' x v true

theorem mirrors_blockFrame (f : FrameRef) : Mirrors (blockFrame f) (blockFrame f) :=
  mirrors_allocate fun _ => rfl

theorem mirrors_newClosure (definition : Function) (f : FrameRef) :
    Mirrors (newClosure definition.strip f) (newClosure definition f) :=
  mirrors_allocate fun m => by rw [m.newClosure_strip]

end Effect

namespace Eval

theorem mirrors_textOf (v : Value) : Mirrors (textOf v) (textOf v) :=
  mirrors_look fun m => m.display_strip v

theorem describe_strip (e : Expr) : describe e.strip = describe e := by
  fun_induction describe e with
  | case1 x => rfl
  | case2 e ih => exact ih
  | case3 e x ih => exact congrArg (· ++ "." ++ x) ih
  | case4 e k ih => exact congrArg (· ++ "[...]") ih
  | case5 e args ih => exact congrArg (· ++ "(...)") ih
  | case6 e hident hparen hfield hindex hcall =>
      cases e with
      | ident x => exact (hident x rfl).elim
      | paren e => exact (hparen e rfl).elim
      | field e x => exact (hfield e x rfl).elim
      | index e k => exact (hindex e k rfl).elim
      | call e args => exact (hcall e args rfl).elim
      | _ => rfl

theorem map_stripDeclarators {α : Type} (g : String → α) (ds : List (String × Option Expr)) :
    (stripDeclarators ds).map (fun d => g d.1) = ds.map fun d => g d.1 := by
  induction ds with
  | nil => rfl
  | cons d ds ih => exact congrArg (g d.1 :: ·) ih

mutual

theorem varNames_strip : (t : Stmt) → varNames t.strip = varNames t
  | .decl .var ds => map_stripDeclarators id ds
  | .decl .letDecl _ | .decl .constDecl _ | .function _ | .breakLoop | .continueLoop
  | .returnValue _ | .throw _ | .expr _ | .empty => rfl
  | .ifElse _ t none => varNames_strip t
  | .ifElse _ t (some f) => by
      simp only [Stmt.strip, stripBranch, varNames, varNames_strip t, varNames_strip f]
  | .whileLoop _ body => varNames_strip body
  | .doWhile body _ => varNames_strip body
  | .forLoop none _ _ body => varNames_strip body
  | .forLoop (some init) _ _ body => by
      simp only [Stmt.strip, stripBranch, varNames, varNames_strip init, varNames_strip body]
  | .block body => varNamesOf_strip body
  | .tryCatch body none none => by
      simp only [Stmt.strip, stripHandler, stripFinalizer, varNames, varNamesOf_strip body]
  | .tryCatch body (some (_, handler)) none => by
      simp only [Stmt.strip, stripHandler, stripFinalizer, varNames, varNamesOf_strip body,
        varNamesOf_strip handler]
  | .tryCatch body none (some finalizer) => by
      simp only [Stmt.strip, stripHandler, stripFinalizer, varNames, varNamesOf_strip body,
        varNamesOf_strip finalizer]
  | .tryCatch body (some (_, handler)) (some finalizer) => by
      simp only [Stmt.strip, stripHandler, stripFinalizer, varNames, varNamesOf_strip body,
        varNamesOf_strip handler, varNamesOf_strip finalizer]

theorem varNamesOf_strip : (ts : List Stmt) →
    varNames.varNamesOf (stripStmts ts) = varNames.varNamesOf ts
  | [] => rfl
  | t :: ts => by
      simp only [stripStmts, varNames.varNamesOf, varNames_strip t, varNamesOf_strip ts]

end

theorem loopNames_strip (init : Option Stmt) : loopNames (stripBranch init) = loopNames init := by
  cases init with
  | none => rfl
  | some t =>
      cases t with
      | decl kind ds =>
          cases kind with
          | var => rfl
          | letDecl => exact map_stripDeclarators (·, true) ds
          | constDecl => exact map_stripDeclarators (·, false) ds
      | _ => rfl

theorem mirrors_hoistVars (f : FrameRef) (body : List Stmt) :
    Mirrors (hoistVars f (stripStmts body)) (hoistVars f body) := by
  rw [hoistVars, hoistVars, varNamesOf_strip]
  apply mirrors_change
  intro m
  induction varNames.varNamesOf body generalizing m with
  | nil => rfl
  | cons x xs ih => exact (congrArg (List.foldl _ · xs) (m.declareVar_strip f x)).trans (ih _)

theorem mirrors_hoistFunctions (f : FrameRef) (body : List Stmt) :
    Mirrors (hoistFunctions f (stripStmts body)) (hoistFunctions f body) := by
  induction body with
  | nil => exact mirrors_pure ()
  | cons t body ih =>
      cases t with
      | function definition =>
          simp only [stripStmts, Stmt.strip, hoistFunctions, definition.strip_name]
          cases definition.name with
          | none => exact ih
          | some x =>
              exact (mirrors_newClosure definition f).bind fun v =>
                (mirrors_declare f x v true).bind fun _ => ih
      | _ => exact ih

theorem mirrors_bindParams (f : FrameRef) (xs : List String) (args : List Value) :
    Mirrors (bindParams f xs args) (bindParams f xs args) := by
  induction xs generalizing args with
  | nil => exact mirrors_pure ()
  | cons x xs ih => exact (mirrors_declare f x _ true).bind fun _ => ih args.tail

theorem mirrors_copyNames (source target : FrameRef) (xs : List (String × Bool)) :
    Mirrors (copyNames source target xs) (copyNames source target xs) := by
  induction xs with
  | nil => exact mirrors_pure ()
  | cons x xs ih =>
      exact (mirrors_look fun m => by rw [m.lookup?_strip]).bind fun v =>
        (mirrors_declare target x.1 v x.2).bind fun _ => ih

theorem mirrors_nextFrame (f inner : FrameRef) (names : List (String × Bool)) :
    Mirrors (nextFrame f inner names) (nextFrame f inner names) := by
  cases names with
  | nil => exact mirrors_pure inner
  | cons x xs =>
      exact (mirrors_blockFrame f).bind fun next =>
        (mirrors_copyNames inner next (x :: xs)).bind fun _ => mirrors_pure next

theorem mirrors_evalBuiltin (host : Host) (b : Builtin) (args : List Value) :
    Mirrors (evalBuiltin host b args) (evalBuiltin host b args) := by
  have hnumber (g : Float → Value) (v : Value) :
      Mirrors (look fun m => g (m.toNumber v)) (look fun m => g (m.toNumber v)) :=
    mirrors_look fun m => congrArg g (m.toNumber_strip v)
  cases b with
  | log | print =>
      have hline : Mirrors (look fun m => " ".intercalate (args.map m.display))
          (look fun m => " ".intercalate (args.map m.display)) :=
        mirrors_look fun m => by rw [funext m.display_strip]
      exact hline.bind fun line => (mirrors_writeLine host line).bind fun _ => mirrors_pure _
  | failTest => exact (mirrors_textOf _).bind fun text => mirrors_fail _
  | isNaN => exact hnumber (fun x => .bool x.isNaN) _
  | isFinite => exact hnumber (fun x => .bool x.isFinite) _
  | toText =>
      cases args with
      | nil => exact mirrors_pure _
      | cons v args => exact (mirrors_textOf v).bind fun text => mirrors_pure _
  | toNumber =>
      cases args with
      | nil => exact mirrors_pure _
      | cons v args => exact hnumber (fun x => .number x) v
  | toBoolean => exact mirrors_pure _
  | error c =>
      have hnew (message : String) :
          Mirrors (newError c.name message) (newError c.name message) :=
        mirrors_allocate fun _ => rfl
      simp only [evalBuiltin]
      cases args.headD .undefined with
      | undefined => exact hnew ""
      | _ => exact (mirrors_textOf _).bind hnew

theorem mirrors_evalFunction (f : FrameRef) (definition : Function) :
    Mirrors (evalFunction f definition.strip) (evalFunction f definition) := by
  rw [evalFunction, evalFunction, definition.strip_name]
  cases definition.name with
  | none => exact mirrors_newClosure definition f
  | some x =>
      exact (mirrors_blockFrame f).bind fun inner =>
        (mirrors_newClosure definition inner).bind fun v =>
          (mirrors_declare inner x v true).bind fun _ => mirrors_pure v

theorem mirrors_read (f : FrameRef) (target : Target) :
    Mirrors (target.read f) (target.read f) := by
  cases target with
  | name x => exact mirrors_readName f x
  | property base key => exact mirrors_getProperty base key

theorem mirrors_write (f : FrameRef) (v : Value) (target : Target) :
    Mirrors (target.write f v) (target.write f v) := by
  cases target with
  | name x => exact mirrors_assign f x v
  | property base key => exact mirrors_setProperty base key v

end Eval

end SmallScript
