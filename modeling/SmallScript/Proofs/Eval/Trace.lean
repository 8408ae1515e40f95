import SmallScript.Session
import SmallScript.Proofs.Outcome
import Mathlib

namespace SmallScript.Eval

open Effect

/-- An expression statement that has run. -/
structure Entry where
  value : Value
  isLost : Bool

abbrev Trace := List Entry

namespace Trace

def lose (l : Trace) : Trace := l.map fun a => { a with isLost := true }

/-- The value of the last entry that is not lost. -/
def value? (l : Trace) : Option Value := (l.filter fun a => !a.isLost).getLast?.map Entry.value

theorem value?_append (l l' : Trace) : (l ++ l').value? = (l'.value? <|> l.value?) := by
  unfold value?
  rw [List.filter_append, List.getLast?_append]
  cases (l'.filter fun a => !a.isLost).getLast? <;> rfl

theorem value?_eq_none_iff {l : Trace} : l.value? = none ↔ ∀ a ∈ l, a.isLost = true := by
  simp [value?]

theorem value?_lose (l : Trace) : l.lose.value? = none := by
  simp [value?_eq_none_iff, lose]

theorem value?_of_last {l : Trace} (h : ∀ a ∈ l.getLast?, a.isLost = false) :
    l.value? = l.getLast?.map Entry.value := by
  cases l using List.reverseRecOn with
  | nil => rfl
  | append_singleton l a =>
      have ha : a.isLost = false := h a (by simp)
      simp [value?, List.filter_append, ha]

end Trace

inductive Ending where
  | through
  | broke
  | continued
  | returned (v : Value)

def Ending.ofCompletion : Completion → Ending
  | .normal _ => through
  | .broke => broke
  | .continued => continued
  | .returned v => returned v

def Ending.completion (last : Option Value) (l : Trace) : Ending → Completion
  | through => .normal (l.value? <|> last)
  | broke => .broke
  | continued => .continued
  | returned v => .returned v

/-- Effects that keep a log. -/
def Traced (α : Type) := State → Outcome (State × Trace) α

namespace Traced

variable {α β γ δ β' : Type}

def prepend (l : Trace) : Outcome (State × Trace) α → Outcome (State × Trace) α :=
  Outcome.mapState fun (s, l') => (s, l ++ l')

instance : Monad Traced where
  pure a := fun s => .done a (s, [])
  bind x f := fun s => (x s).bind fun a (s, l) => prepend l (f a s)

def lift (x : Effect α) : Traced α := fun s => (x s).mapState fun s => (s, [])

def record (v : Value) : Traced Unit := fun s => .done () (s, [⟨v, false⟩])

def tried (x : Traced α) : Traced (Except Fault α) := fun s =>
  match x s with
  | .done a p => .done (.ok a) p
  | .fail e (s, _) => .done (.error e) (s, [])
  | .exhausted => .exhausted

def outcome (x : Traced α) : Traced (Except Fault α) := fun s => (x s).caught

/-- A pass of a loop: whether the loop ends with it, and how. -/
def pass (x : Traced Ending) : Traced (Unit ⊕ Ending) := fun s =>
  match x s with
  | .done .through (s, l) => .done (.inl ()) (s, l)
  | .done .continued (s, l) => .done (.inl ()) (s, l.lose)
  | .done .broke (s, l) => .done (.inr .through) (s, l.lose)
  | .done (.returned v) (s, l) => .done (.inr (.returned v)) (s, l)
  | .fail e p => .fail e p
  | .exhausted => .exhausted

def iterate (step : β → Traced (β ⊕ γ)) : Nat → β → Traced γ
  | 0, _ => fun _ => .exhausted
  | n + 1, b => step b >>= Sum.elim (iterate step n) pure

end Traced

section

variable (E : Evaluator) (T : FrameRef → Stmt → Traced Ending)

def traceInOrder (f : FrameRef) : List Stmt → Traced Ending
  | [] => return .through
  | t :: ts => do
    match ← T f t with
    | .through => traceInOrder f ts
    | abrupt => return abrupt

def traceBody (f : FrameRef) (body : List Stmt) : Traced Ending := do
  .lift (hoistFunctions f body)
  traceInOrder T f body

def traceBlock (f : FrameRef) (body : List Stmt) : Traced Ending := do
  traceBody T (← .lift (blockFrame f)) body

def traceWhilePass (f : FrameRef) (test : Expr) (body : Stmt) : Traced (Unit ⊕ Ending) := do
  if (← .lift (E.expr f test)).truthy then (T f body).pass else return .inr .through

def traceDoPass (f : FrameRef) (body : Stmt) (test : Expr) : Traced (Unit ⊕ Ending) := do
  match ← (T f body).pass with
  | .inr e => return .inr e
  | .inl () =>
    if (← .lift (E.expr f test)).truthy then return .inl () else return .inr .through

def traceForPass (f : FrameRef) (names : List (String × Bool)) (test update : Option Expr)
    (body : Stmt) (inner : FrameRef) : Traced (FrameRef ⊕ Ending) := do
  if ← .lift (holds E inner test) then
    match ← (T inner body).pass with
    | .inr e => return .inr e
    | .inl () =>
      let next ← .lift (nextFrame f inner names)
      .lift (evalMaybe E next update)
      return .inl next
  else return .inr .through

def traceFor (f : FrameRef) (init : Option Stmt) (test update : Option Expr) (body : Stmt) :
    Traced Ending := do
  let inner ← .lift (blockFrame f)
  match init with
  | some t => do
    let _ ← .lift (E.stmt inner t)
  | none => pure ()
  Traced.iterate (traceForPass E T f (loopNames init) test update body) E.fuel inner

def traceHandler (f : FrameRef) (param : String) (body : List Stmt) (e : Fault) :
    Traced Ending := do
  let inner ← .lift (blockFrame f)
  let v ← .lift (allocate fun m => e.toValue m)
  .lift (declare inner param v true)
  traceBody T inner body

def traceHandled (f : FrameRef) (handler : Option (String × List Stmt))
    (result : Except Fault Ending) : Traced (Except Fault Ending) :=
  match handler, result with
  | some (param, body), .error e =>
    if e.isCatchable then (traceHandler T f param body e).outcome else return result
  | _, _ => return result

def traceFinish (f : FrameRef) (result : Except Fault Ending) :
    Option (List Stmt) → Traced Ending
  | none => .lift (ofExcept result)
  | some body => do
    match ← .lift (evalBlock E f body) with
    | .normal _ => .lift (ofExcept result)
    | abrupt => return .ofCompletion abrupt

def traceTry (f : FrameRef) (body : List Stmt) (handler : Option (String × List Stmt))
    (finalizer : Option (List Stmt)) : Traced Ending := do
  let result ← traceHandled T f handler (← (traceBlock T f body).tried)
  traceFinish E f result finalizer

def traceReturn (f : FrameRef) : Option Expr → Traced Ending
  | none => return .returned .undefined
  | some e => do return .returned (← .lift (E.expr f e))

def traceStmt (f : FrameRef) : Stmt → Traced Ending
  | .decl kind ds => do
    .lift (evalDeclarators E f kind ds)
    return .through
  | .function _ => return .through
  | .ifElse test t e => do
    if (← .lift (E.expr f test)).truthy then T f t
    else
      match e with
      | some e => T f e
      | none => return .through
  | .whileLoop test body => Traced.iterate (fun _ => traceWhilePass E T f test body) E.fuel ()
  | .doWhile body test => Traced.iterate (fun _ => traceDoPass E T f body test) E.fuel ()
  | .forLoop init test update body => traceFor E T f init test update body
  | .block body => traceBlock T f body
  | .tryCatch body handler finalizer => traceTry E T f body handler finalizer
  | .breakLoop => return .broke
  | .continueLoop => return .continued
  | .returnValue e => traceReturn E f e
  | .throw e => do .lift (fail (.thrown (← .lift (E.expr f e))))
  | .expr e => do
    .record (← .lift (E.expr f e))
    return .through
  | .empty => return .through

end

def tracer (host : Host) : Nat → FrameRef → Stmt → Traced Ending
  | 0 => fun _ _ _ => .exhausted
  | n + 1 => traceStmt (evaluator host n) (tracer host n)

/-- The traced run of a program. -/
def traceProgram (host : Host) (fuel : Nat) (global : FrameRef) (program : Program) :
    Traced Ending := do
  .lift (hoistVars global program)
  .lift (setDepth 0)
  traceBody (tracer host fuel) global program

namespace Traced

variable {α β γ δ β' : Type}

/-- The effect without its log, which may decide on the value. -/
def forget (view : Trace → α → β) (x : Traced α) : Effect β := fun s =>
  match x s with
  | .done a (s, l) => .done (view l a) s
  | .fail e (s, _) => .fail e s
  | .exhausted => .exhausted

theorem pure_forget (view : Trace → α → β) (a : α) :
    (pure a : Traced α).forget view = pure (view [] a) := rfl

theorem lift_forget (view : Trace → α → β) (x : Effect α) :
    (lift x).forget view = view [] <$> x := by
  funext s
  simp only [forget, lift, Functor.map, Outcome.mapState]
  cases x s <;> rfl

/-- The log of the first part counts for the second one. -/
theorem bind_forget_of_done {y : Traced α} {k : α → Traced γ} {x : Effect δ} {k' : δ → Effect β}
    {view : Trace → α → δ} {view' : Trace → γ → β} (hx : x = y.forget view)
    (hk : ∀ s s₁ l a, y s = .done a (s₁, l) →
      k' (view l a) = (k a).forget fun l' => view' (l ++ l')) :
    x >>= k' = (y >>= k).forget view' := by
  subst hx
  funext s
  simp only [forget, Bind.bind]
  rcases hs : y s with ⟨a, s₁, l⟩ | ⟨e, s₁, l⟩ | _
  · simp only [Outcome.bind, hk s s₁ l a hs, forget, prepend]
    cases k a s₁ <;> rfl
  · rfl
  · rfl

theorem bind_forget {y : Traced α} {k : α → Traced γ} {x : Effect δ} {k' : δ → Effect β}
    {view : Trace → α → δ} {view' : Trace → γ → β} (hx : x = y.forget view)
    (hk : ∀ l a, k' (view l a) = (k a).forget fun l' => view' (l ++ l')) :
    x >>= k' = (y >>= k).forget view' :=
  bind_forget_of_done hx fun _ _ l a _ => hk l a

theorem lift_bind_forget {x : Effect α} {k : α → Traced γ} {k' : α → Effect β}
    {view : Trace → γ → β} (hk : ∀ a, k' a = (k a).forget view) :
    x >>= k' = (lift x >>= k).forget view := by
  funext s
  simp only [forget, Bind.bind, lift]
  cases x s with
  | done a s₁ =>
      simp only [Outcome.mapState, Outcome.bind, hk, forget, prepend]
      cases k a s₁ <;> rfl
  | fail e s₁ => rfl
  | exhausted => rfl

theorem tried_forget (view : Trace → α → β) (x : Traced α) :
    Effect.outcome (x.forget view) = x.tried.forget fun l r => r.map (view l) := by
  funext s
  simp only [outcome_apply, forget, tried]
  rcases x s with ⟨a, s₁, l⟩ | ⟨e, s₁, l⟩ | _ <;> rfl

theorem outcome_forget (view : Trace → α → β) (x : Traced α) :
    Effect.outcome (x.forget view) = x.outcome.forget fun l r => r.map (view l) := by
  funext s
  simp only [outcome_apply, forget, outcome]
  rcases x s with ⟨a, s₁, l⟩ | ⟨e, s₁, l⟩ | _ <;> rfl

theorem log_of_tried {x : Traced α} {s s₁ : State} {l : Trace} {e : Fault}
    (h : x.tried s = .done (.error e) (s₁, l)) : l = [] := by
  simp only [tried] at h
  split at h <;> simp_all

def stepView (pair : β → Option Value → δ) (last : Option Value) (l : Trace) :
    β ⊕ Ending → δ ⊕ Completion
  | .inl b => .inl (pair b (l.value? <|> last))
  | .inr e => .inr (e.completion last l)

theorem pass_forget {x : Effect Completion} {y : Traced Ending} (last : Option Value)
    (h : x = y.forget (Ending.completion none)) :
    afterPass last <$> x = y.pass.forget (stepView (fun () v => v) last) := by
  subst h
  funext s
  rw [map_eq_pure_bind, bind_apply]
  simp only [forget, pass]
  rcases y s with ⟨_ | _ | _ | v, s₁, l⟩ | ⟨e, s₁, l⟩ | _ <;>
    simp [Outcome.bind, pure, afterPass, Ending.completion, stepView, Trace.value?_lose]

theorem pass_bind_forget {x : Effect Completion} {y : Traced Ending} {last : Option Value}
    {next : Option Value → Effect (δ ⊕ Completion)} {k : Traced (β ⊕ Ending)}
    {pair : β → Option Value → δ} (h : x = y.forget (Ending.completion none))
    (hk : ∀ l, next (l.value? <|> last) = k.forget fun l' => stepView pair last (l ++ l')) :
    (do
      match afterPass last (← x) with
      | .inr c => return .inr c
      | .inl last => next last) = Traced.forget (stepView pair last) (do
        match ← y.pass with
        | .inr e => return .inr e
        | .inl () => k) := by
  refine (bind_map_left (afterPass last) x fun
    | .inr c => pure (.inr c)
    | .inl last => next last).symm.trans (bind_forget (pass_forget last h) fun l r => ?_)
  cases r with
  | inr e => simp only [stepView, pure_forget, List.append_nil]
  | inl u => exact hk l

theorem completion_append (e : Ending) (last : Option Value) (l l' : Trace) :
    e.completion (l.value? <|> last) l' = e.completion last (l ++ l') := by
  cases e with
  | through =>
      rw [Ending.completion, Ending.completion, Trace.value?_append]
      cases l'.value? <;> rfl
  | _ => rfl

theorem iterate_forget {step : β → Traced (β ⊕ Ending)} {step' : δ → Effect (δ ⊕ Completion)}
    {pair : β → Option Value → δ}
    (hstep : ∀ b last, step' (pair b last) = (step b).forget (stepView pair last))
    (n : Nat) (b : β) (last : Option Value) :
    Effect.iterate step' n (pair b last) =
      (iterate step n b).forget fun l e => e.completion last l := by
  induction n generalizing b last with
  | zero => rfl
  | succ n ih =>
      rw [iterate_succ, iterate]
      refine bind_forget (hstep b last) fun l r => ?_
      cases r with
      | inl b =>
          rw [stepView, Sum.elim_inl, Sum.elim_inl, ih]
          exact congrArg (forget · _) (funext fun l' => funext fun e => completion_append e last l l')
      | inr e => rw [stepView, Sum.elim_inr, Sum.elim_inr, pure_forget, List.append_nil]

end Traced

open Traced

/-- The traced statements end as those of the evaluator do. -/
def Traces (T : FrameRef → Stmt → Traced Ending) (E : Evaluator) : Prop :=
  ∀ f t, E.stmt f t = (T f t).forget fun l e => e.completion none l

theorem traceFinish_forget (E : Evaluator) (f : FrameRef) (l : Trace)
    (result : Except Fault Ending) (finalizer : Option (List Stmt)) :
    finish E f (result.map (Ending.completion none l)) finalizer =
      (traceFinish E f result finalizer).forget fun l' e => e.completion none (l ++ l') := by
  have hresult : ofExcept (result.map (Ending.completion none l)) =
      (lift (ofExcept result)).forget fun l' e => e.completion none (l ++ l') := by
    rw [lift_forget, List.append_nil]
    cases result <;> rfl
  cases finalizer with
  | none => exact hresult
  | some body =>
      refine lift_bind_forget fun c => ?_
      cases c with
      | normal v => exact hresult
      | _ => rfl

section

variable {E : Evaluator} {T : FrameRef → Stmt → Traced Ending} (h : Traces T E) (f : FrameRef)
include h

theorem traceInOrder_forget (ts : List Stmt) (last : Option Value) :
    runInOrder E f last ts = (traceInOrder T f ts).forget fun l e => e.completion last l := by
  induction ts generalizing last with
  | nil => rfl
  | cons t ts ih =>
      refine bind_forget (h f t) fun l e => ?_
      cases e with
      | through =>
          have hlast : (l.value? <|> none) = l.value? := by simp
          simp only [Ending.completion, hlast, ih]
          exact congrArg (forget · _) (funext fun l' => funext fun e => completion_append e last l l')
      | _ => rfl

theorem traceBody_forget (body : List Stmt) :
    runBody E f body = (traceBody T f body).forget fun l e => e.completion none l :=
  lift_bind_forget fun () => traceInOrder_forget h f body none

theorem traceBlock_forget (body : List Stmt) :
    evalBlock E f body = (traceBlock T f body).forget fun l e => e.completion none l :=
  lift_bind_forget fun inner => traceBody_forget h inner body

theorem traceWhilePass_forget (test : Expr) (body : Stmt) (last : Option Value) :
    whilePass E f test body last =
      (traceWhilePass E T f test body).forget (stepView (fun () v => v) last) := by
  refine lift_bind_forget fun v => ?_
  split
  · rw [← pass_forget last (h f body), map_eq_pure_bind]
  · rfl

theorem traceDoPass_forget (test : Expr) (body : Stmt) (last : Option Value) :
    doPass E f body test last =
      (traceDoPass E T f body test).forget (stepView (fun () v => v) last) := by
  refine pass_bind_forget (h f body) fun l => lift_bind_forget fun v => ?_
  split <;> simp only [stepView, Ending.completion, pure_forget, List.append_nil]

theorem traceForPass_forget (names : List (String × Bool)) (test update : Option Expr)
    (body : Stmt) (inner : FrameRef) (last : Option Value) :
    forPass E f names test update body (inner, last) =
      (traceForPass E T f names test update body inner).forget (stepView Prod.mk last) := by
  refine lift_bind_forget fun goesOn => ?_
  split
  · refine pass_bind_forget (h inner body) fun l => ?_
    refine lift_bind_forget fun next => lift_bind_forget fun () => ?_
    simp only [stepView, pure_forget, List.append_nil]
  · rfl

theorem traceFor_forget (init : Option Stmt) (test update : Option Expr) (body : Stmt) :
    evalFor E f init test update body =
      (traceFor E T f init test update body).forget fun l e => e.completion none l := by
  refine lift_bind_forget fun inner => ?_
  have hloop := iterate_forget (traceForPass_forget h f (loopNames init) test update body)
    E.fuel inner none
  cases init with
  | none => exact hloop
  | some t => exact lift_bind_forget fun _ => hloop

theorem traceHandler_forget (param : String) (body : List Stmt) (e : Fault) :
    evalHandler E f param body e =
      (traceHandler T f param body e).forget fun l e => e.completion none l :=
  lift_bind_forget fun inner => lift_bind_forget fun _ => lift_bind_forget fun () =>
    traceBody_forget h inner body

theorem traceHandled_forget (handler : Option (String × List Stmt)) (l : Trace)
    (result : Except Fault Ending) (hl : ∀ e, result = .error e → l = []) :
    handled E f handler (result.map (Ending.completion none l)) =
      (traceHandled T f handler result).forget
        fun l' r => r.map (Ending.completion none (l ++ l')) := by
  rcases handler with _ | ⟨param, body⟩
  · simp only [handled, traceHandled, pure_forget, List.append_nil]
  · cases result with
    | ok e => simp only [handled, traceHandled, Except.map, pure_forget, List.append_nil]
    | error e =>
        cases hl e rfl
        simp only [handled, traceHandled, Except.map]
        split
        · rw [traceHandler_forget h f param body e, outcome_forget]
          rfl
        · rfl

theorem traceTry_forget (body : List Stmt) (handler : Option (String × List Stmt))
    (finalizer : Option (List Stmt)) :
    evalTry E f body handler finalizer =
      (traceTry E T f body handler finalizer).forget fun l e => e.completion none l := by
  have hbody : Effect.outcome (evalBlock E f body) =
      (traceBlock T f body).tried.forget fun l r => r.map (Ending.completion none l) := by
    rw [traceBlock_forget h f body, tried_forget]
  rw [evalTry, attempt, bind_assoc]
  refine bind_forget_of_done hbody fun s s₁ l result hdone => ?_
  refine bind_forget (traceHandled_forget h f handler l result ?_) fun l' result' => ?_
  · rintro e rfl
    exact log_of_tried hdone
  · simp only [traceFinish_forget, List.append_assoc]

theorem traceStmt_forget (t : Stmt) :
    evalStmt E f t = (traceStmt E T f t).forget fun l e => e.completion none l := by
  cases t with
  | ifElse test t e =>
      refine lift_bind_forget fun v => ?_
      split
      · exact h f t
      · cases e with
        | none => rfl
        | some e => exact h f e
  | whileLoop test body =>
      exact iterate_forget (fun _ => traceWhilePass_forget h f test body) E.fuel () none
  | doWhile body test =>
      exact iterate_forget (fun _ => traceDoPass_forget h f test body) E.fuel () none
  | forLoop init test update body => exact traceFor_forget h f init test update body
  | block body => exact traceBlock_forget h f body
  | tryCatch body handler finalizer => exact traceTry_forget h f body handler finalizer
  | decl kind ds => exact lift_bind_forget fun () => rfl
  | returnValue e =>
      cases e with
      | none => rfl
      | some e => exact lift_bind_forget fun _ => rfl
  | throw e => exact lift_bind_forget fun _ => rfl
  | expr e => exact lift_bind_forget fun _ => rfl
  | _ => rfl

end

theorem tracer_traces (host : Host) (n : Nat) : Traces (tracer host n) (evaluator host n) := by
  induction n with
  | zero => exact fun _ _ => rfl
  | succ n ih => exact fun f t => traceStmt_forget ih f t

/-- The traced run of a program ends with the statements of the program, as the plain run does. -/
theorem traceProgram_forget (host : Host) (fuel : Nat) (global : FrameRef) (program : Program) :
    runStatements (evaluator host fuel) global program =
      (traceProgram host fuel global program).forget fun l e => e.completion none l :=
  lift_bind_forget fun () => lift_bind_forget fun () =>
    traceBody_forget (tracer_traces host fuel) global program

theorem programResult_eq_done {c : Completion} {v : Option Value} {s s' : State} :
    programResult c s = .done v s' ↔ c = .normal v ∧ s' = s := by
  cases c <;> simp [programResult, look, fail, pure, Bind.bind, eq_comm]

/-- A program that ends without a fault has the value of the last expression statement that it ran
and that was not lost, and none if there is no such statement. -/
theorem runProgram_value {host : Host} {fuel : Nat} {global : FrameRef} {program : Program}
    {v : Option Value} {s s' : State} (h : runProgram host fuel global program s = .done v s') :
    ∃ l, traceProgram host fuel global program s = .done .through (s', l) ∧
      v = l.value? ∧ (v = none ↔ ∀ a ∈ l, a.isLost = true) ∧
      ((∀ a ∈ l.getLast?, a.isLost = false) → v = l.getLast?.map Entry.value) := by
  obtain ⟨c, s₁, hrun, hresult⟩ := bind_eq_done.mp h
  obtain ⟨rfl, rfl⟩ := programResult_eq_done.mp hresult
  rw [traceProgram_forget, forget] at hrun
  split at hrun
  · next e s₁ l htrace =>
      cases e <;> cases hrun
      have hlast : (l.value? <|> none) = l.value? := by simp
      rw [hlast]
      exact ⟨l, htrace, rfl, Trace.value?_eq_none_iff, Trace.value?_of_last⟩
  · cases hrun
  · cases hrun

/-- The expression statement of a pass that is left with `break` is lost, and the one in front of the
loop decides. -/
theorem runProgram_value_break : ∃ s' l,
    runProgram ⟨8, fun _ => none⟩ 20 (Session.start false).global
        [.expr (.string "a"), .whileLoop (.bool true) (.block [.expr (.string "b"), .breakLoop])]
        (Session.start false).state = .done (some (.string "a")) s' ∧
      traceProgram ⟨8, fun _ => none⟩ 20 (Session.start false).global
        [.expr (.string "a"), .whileLoop (.bool true) (.block [.expr (.string "b"), .breakLoop])]
        (Session.start false).state = .done .through (s', l) ∧
      l.value? = some (.string "a") := by
  have hrun : ∃ s', runProgram ⟨8, fun _ => none⟩ 20 (Session.start false).global
      [.expr (.string "a"), .whileLoop (.bool true) (.block [.expr (.string "b"), .breakLoop])]
      (Session.start false).state = .done (some (.string "a")) s' := ⟨_, rfl⟩
  obtain ⟨s', h⟩ := hrun
  obtain ⟨l, htrace, hvalue, -⟩ := runProgram_value h
  exact ⟨s', l, h, htrace, hvalue.symm⟩

example : ∃ s', traceProgram ⟨8, fun _ => none⟩ 20 (Session.start false).global
    [.expr (.string "a"), .whileLoop (.bool true) (.block [.expr (.string "b"), .breakLoop])]
    (Session.start false).state =
      .done .through (s', [⟨.string "a", false⟩, ⟨.string "b", true⟩]) := ⟨_, rfl⟩

end SmallScript.Eval
