import SmallScript.Conformance.Report
import SmallScript.Proofs.Eval.Settling
import SmallScript.Proofs.Memory.Growth
import SmallScript.Session
import Mathlib

namespace SmallScript

structure Memory.Extends (m m' : Memory) : Prop where
  arrays : m'.arrays = m.arrays
  closures : m'.closures = m.closures
  objects : ∃ new, m'.objects = m.objects ++ new
  frames : ∃ new, m'.frames = m.frames ++ new

section Frames

variable (m : Memory) (frames : Array Frame)

theorem Memory.displayFrom_frames (n : Nat) (path : List ArrayRef) (v : Value) :
    { m with frames }.displayFrom n path v = m.displayFrom n path v := by
  induction n generalizing path v with
  | zero => rfl
  | succ n ih => cases v <;> simp only [displayFrom, ih] <;> rfl

theorem Memory.display_frames (v : Value) : { m with frames }.display v = m.display v :=
  m.displayFrom_frames frames _ _ v

theorem Memory.inspectFrom_frames (n : Nat) (arrays : List ArrayRef) (objects : List ObjectRef) :
    { m with frames }.inspectFrom n arrays objects = m.inspectFrom n arrays objects := by
  induction n generalizing arrays objects with
  | zero => rfl
  | succ n ih =>
      funext v
      cases v <;> simp only [inspectFrom, ih, display_frames] <;> rfl

theorem Memory.inspect_frames (v : Value) : { m with frames }.inspect v = m.inspect v :=
  congrFun (m.inspectFrom_frames frames _ _ _) v

theorem Fault.message_frames (e : Fault) : e.message { m with frames } = e.message m := by
  cases e with
  | thrown v =>
      simp only [message, Memory.display_frames, Memory.inspect_frames]
      rfl
  | _ => rfl

theorem Conformance.propertyText_frames (v : Value) (key : String) :
    propertyText { m with frames } v key = propertyText m v key := by
  have hget : { m with frames }.getProperty v key = m.getProperty v key := by cases v <;> rfl
  simp only [propertyText, hget, Memory.display_frames]

theorem Conformance.Verdict.ofFault_frames (e : Fault) :
    ofFault { m with frames } e = ofFault m e := by
  cases e with
  | thrown v =>
      simp only [ofFault, propertyText_frames, Memory.inspect_frames]
      rfl
  | _ => rfl

end Frames

section Value

variable {m : Memory} {e : Fault}

theorem append_ne_empty_of_left {s t : String} (h : s ≠ "") : s ++ t ≠ "" :=
  fun hst => h (String.append_eq_empty_iff.mp hst).1

theorem append_ne_empty_of_right {s t : String} (h : t ≠ "") : s ++ t ≠ "" :=
  fun hst => h (String.append_eq_empty_iff.mp hst).2

theorem EarlyError.message_ne_empty (e : EarlyError) : e.message ≠ "" := by
  cases e with
  | redeclared x => exact append_ne_empty_of_right (by decide)
  | _ => decide

theorem ParseError.message_ne_empty (e : ParseError) : e.message ≠ "" := by
  cases e with
  | unexpectedToken t => exact append_ne_empty_of_left (append_ne_empty_of_right (by decide))
  | unexpectedEnd => decide

/-- A fault that a program can catch is worded, unless it is thrown by the program. -/
theorem Fault.wording_ne_empty (he : e.isCatchable = true) (hthrown : ∀ v, e ≠ .thrown v) :
    e.wording ≠ "" := by
  cases e with
  | thrown v => exact (hthrown v rfl).elim
  | testFailed | sinkFailed | strayJump | strayJumpInBody | notShortCircuited => cases he
  | unparsable e => exact e.message_ne_empty
  | early e => exact e.message_ne_empty
  | assignTarget => exact EarlyError.message_ne_empty .assignTarget
  | constantAssigned | arrayLength | tooDeep => decide
  | notDefined | notFunction | notConstructor => exact append_ne_empty_of_right (by decide)
  | readOf v k => exact append_ne_empty_of_right (by decide)
  | writeTo v k => exact append_ne_empty_of_right (by decide)
  | arrayTooLong n => exact append_ne_empty_of_left (append_ne_empty_of_right (by decide))

theorem Fault.toValue_of_not_thrown (hthrown : ∀ v, e ≠ .thrown v) :
    e.toValue m = (.object m.objects.size, (m.newError e.kind.name e.wording).2) := by
  cases e with
  | thrown v => exact (hthrown v rfl).elim
  | _ => rfl

theorem Memory.objectAt_newError (m : Memory) (name text : String) :
    (m.newError name text).2.objectAt m.objects.size =
      ⟨.error, [("name", .string name), ("message", .string text)]⟩ := by
  simp [newError, objectAt]

theorem Memory.isError_newError (m : Memory) (name text : String) :
    (m.newError name text).2.isError (.object m.objects.size) = true := by
  rw [isError, objectAt_newError]
  rfl

theorem Memory.display_string (m : Memory) (s : String) : m.display (.string s) = s := by
  obtain ⟨k, hk⟩ := m.exists_displayFuel
  rw [display, hk]
  rfl

theorem Memory.display_newError (m : Memory) {name text : String} (h : text ≠ "") :
    (m.newError name text).2.display (.object m.objects.size) = name ++ ": " ++ text := by
  obtain ⟨k, hk⟩ := (m.newError name text).2.exists_displayFuel
  rw [display, hk, displayFrom, objectAt_newError]
  exact if_neg h

theorem Conformance.propertyText_newError (m : Memory) (name text : String) :
    propertyText (m.newError name text).2 (.object m.objects.size) "name" = name ∧
      propertyText (m.newError name text).2 (.object m.objects.size) "message" = text := by
  simp only [propertyText, Memory.getProperty, Memory.objectAt_newError]
  exact ⟨Memory.display_string _ name, Memory.display_string _ text⟩

/-- Thrown again, the value is reported as the fault was. -/
theorem Fault.reported_toValue (m : Memory) (he : e.isCatchable = true) :
    (Fault.thrown (e.toValue m).1).message (e.toValue m).2 = e.message m ∧
      Conformance.Verdict.ofFault (e.toValue m).2 (.thrown (e.toValue m).1) =
        Conformance.Verdict.ofFault m e := by
  by_cases hthrown : ∃ v, e = .thrown v
  · obtain ⟨v, rfl⟩ := hthrown
    exact ⟨rfl, rfl⟩
  · have hnot : ∀ v, e ≠ .thrown v := fun v hv => hthrown ⟨v, hv⟩
    obtain ⟨hname, htext⟩ := Conformance.propertyText_newError m e.kind.name e.wording
    have hmessage : e.message m = e.kind.name ++ ": " ++ e.wording := by
      cases e with
      | thrown v => exact (hnot v rfl).elim
      | _ => rfl
    have hverdict : Conformance.Verdict.ofFault m e = .fail e.kind.name e.wording := by
      cases e with
      | thrown v => exact (hnot v rfl).elim
      | _ => rfl
    rw [e.toValue_of_not_thrown hnot, hmessage, hverdict]
    simp only [message, Conformance.Verdict.ofFault, Memory.isError_newError, if_true, hname, htext,
      Memory.display_newError m (wording_ne_empty he hnot), and_self]

end Value

namespace Eval

open Effect Comparison

variable {host : Host} {f : FrameRef} {t : Stmt} {s s' : State} {o o' : Outcome State Completion}
  {e : Fault} {n : Nat}

/-- From the state `s` the statement comes to an end, with the outcome `o`. -/
def StmtSettles (host : Host) (f : FrameRef) (t : Stmt) (s : State)
    (o : Outcome State Completion) : Prop :=
  o ≠ .exhausted ∧ ∃ n, (evaluator host n).stmt f t s = o

theorem stmt_of_le {m : Nat} (h : (evaluator host n).stmt f t s = o) (ho : o ≠ .exhausted)
    (hn : n ≤ m) : (evaluator host m).stmt f t s = o := by
  obtain hnone | hsame :=
    ((evaluator_below hn).stmt .top f t (Contract.lax_good _) s (Contract.lax_holds s)).1
  · exact (ho (h.symm.trans hnone)).elim
  · exact hsame.symm.trans h

theorem StmtSettles.unique (h : StmtSettles host f t s o) (h' : StmtSettles host f t s o') :
    o = o' := by
  obtain ⟨ho, n, hn⟩ := h
  obtain ⟨ho', m, hm⟩ := h'
  rw [← stmt_of_le hn ho (Nat.le_max_left n m), stmt_of_le hm ho' (Nat.le_max_right n m)]

theorem settles_iff_eq (h : StmtSettles host f t s o) :
    StmtSettles host f t s o' ↔ o' = o :=
  ⟨fun h' => h'.unique h, fun h' => h' ▸ h⟩

/-- The memory in which the handler of a fault starts: with the value of the fault in a new frame. -/
def handlerMemory (f : FrameRef) (x : String) (e : Fault) (m : Memory) : Memory :=
  { (e.toValue m).2 with
    frames := m.frames.push ⟨[(x, ⟨(e.toValue m).1, true⟩)], some f, false⟩ }

theorem frameAt_handlerMemory (f : FrameRef) (x : String) (e : Fault) (m : Memory) :
    (handlerMemory f x e m).frameAt m.frames.size =
      ⟨[(x, ⟨(e.toValue m).1, true⟩)], some f, false⟩ := by
  simp [handlerMemory, Memory.frameAt]

theorem readName_handlerMemory (f : FrameRef) (x : String) (e : Fault) (m : Memory) :
    (handlerMemory f x e m).readName m.frames.size x = .ok (e.toValue m).1 := by
  simp [Memory.readName, Memory.lookup?, Memory.resolve?, Memory.chainFuel, Memory.nearest?,
    Memory.bindingAt?, frameAt_handlerMemory, Table.has, Table.get?]

theorem extends_handlerMemory (f : FrameRef) (x : String) (e : Fault) (m : Memory) :
    m.Extends (handlerMemory f x e m) := by
  refine ⟨?_, ?_, ?_, ⟨#[_], Array.push_eq_append ..⟩⟩
  · cases e <;> rfl
  · exact e.closures_toValue m
  · by_cases hthrown : ∃ v, e = .thrown v
    · obtain ⟨v, rfl⟩ := hthrown
      exact ⟨#[], (Array.append_empty ..).symm⟩
    · rw [handlerMemory, e.toValue_of_not_thrown fun v hv => hthrown ⟨v, hv⟩]
      exact ⟨#[_], Array.push_eq_append ..⟩

theorem evalHandler_eq_runBody (E : Evaluator) (f : FrameRef) (x : String) (body : List Stmt) (e : Fault)
    (s : State) :
    evalHandler E f x body e s =
      runBody E s.memory.frames.size body { s with memory := handlerMemory f x e s.memory } := by
  have hnew : e.toValue (s.memory.newFrame (some f) false).2 =
      ((e.toValue s.memory).1, ((e.toValue s.memory).2.newFrame (some f) false).2) := by
    cases e <;> rfl
  have hdeclare : (e.toValue (s.memory.newFrame (some f) false).2).2.declare
      s.memory.frames.size x (e.toValue (s.memory.newFrame (some f) false).2).1 true =
        handlerMemory f x e s.memory := by
    have hframes := Memory.frames_toValue e s.memory
    rw [hnew, handlerMemory, ← hframes]
    exact Memory.modifyFrame_newFrame _ (some f) false _
  rw [← hdeclare]
  rfl

theorem evalHandler_rethrow (host : Host) (n : Nat) (f : FrameRef) (x : String) (e : Fault)
    (s : State) :
    evalHandler (evaluator host (n + 2)) f x [.throw (.ident x)] e s =
      .fail (.thrown (e.toValue s.memory).1)
        { s with memory := handlerMemory f x e s.memory } := by
  have hread : readName s.memory.frames.size x { s with memory := handlerMemory f x e s.memory } =
      .done (e.toValue s.memory).1 { s with memory := handlerMemory f x e s.memory } := by
    rw [readName, query, readName_handlerMemory]
    rfl
  have hthrow : (evaluator host (n + 2)).stmt s.memory.frames.size (.throw (.ident x))
      { s with memory := handlerMemory f x e s.memory } =
        .fail (.thrown (e.toValue s.memory).1)
          { s with memory := handlerMemory f x e s.memory } := by
    change (readName s.memory.frames.size x >>= fun v => fail (.thrown v)) _ = _
    rw [bind_apply, hread]
    rfl
  rw [evalHandler_eq_runBody]
  change (runInOrder _ _ none [.throw (.ident x)]) _ = _
  rw [runInOrder, bind_apply, hthrow]
  rfl

/-- A `try` whose handler throws what it has caught ends as its body did, with a fault that is
reported in the same way. -/
theorem evalTry_rethrow (body : List Stmt) (x : String) {s₁ : State}
    (h : evalBlock (evaluator host (n + 2)) f body s = .fail e s₁) (he : e.isCatchable = true) :
    evalTry (evaluator host (n + 2)) f body (some (x, [.throw (.ident x)])) none s =
      .fail (.thrown (e.toValue s₁.memory).1)
        { s₁ with memory := handlerMemory f x e s₁.memory } := by
  rw [evalTry, bind_apply, attempt, bind_apply, outcome_apply, h]
  simp only [Outcome.caught, Outcome.bind, handled, he, if_true]
  rw [outcome_apply, evalHandler_rethrow]
  rfl

theorem rethrow_settles (body : List Stmt) (x : String) {s₁ : State}
    (h : StmtSettles host f (.block body) s (.fail e s₁)) (he : e.isCatchable = true) :
    StmtSettles host f (.tryCatch body (some (x, [.throw (.ident x)])) none) s
      (.fail (.thrown (e.toValue s₁.memory).1)
        { s₁ with memory := handlerMemory f x e s₁.memory }) := by
  obtain ⟨ho, n, hn⟩ := h
  exact ⟨nofun, n + 3, evalTry_rethrow body x (stmt_of_le hn ho (Nat.le_add_right n 3)) he⟩

/-- Catching a fault and throwing what was caught changes nothing: the fault is reported as it would
have been, and all that is in the memory is as it was. -/
theorem rethrow_is_transparent (body : List Stmt) (x : String) {s₁ : State}
    (h : StmtSettles host f (.block body) s (.fail e s₁)) (he : e.isCatchable = true) :
    ∃ e' s₂, e'.isCatchable = true ∧
      (∀ o, StmtSettles host f (.tryCatch body (some (x, [.throw (.ident x)])) none) s o ↔
        o = .fail e' s₂) ∧
      e'.message s₂.memory = e.message s₁.memory ∧
      Conformance.Verdict.ofFault s₂.memory e' = Conformance.Verdict.ofFault s₁.memory e ∧
      s₁.memory.Extends s₂.memory ∧
      s₂.output = s₁.output ∧ s₂.writes = s₁.writes ∧ s₂.depth = s₁.depth := by
  obtain ⟨hmessage, hverdict⟩ := e.reported_toValue s₁.memory he
  refine ⟨_, _, rfl, fun o => settles_iff_eq (rethrow_settles body x h he), ?_, ?_,
    extends_handlerMemory f x e s₁.memory, rfl, rfl, rfl⟩
  · exact (Fault.message_frames _ _ _).trans hmessage
  · exact (Conformance.Verdict.ofFault_frames _ _ _).trans hverdict

/-- A name without a binding. -/
theorem rethrow_is_transparent_unbound :
    let host : Host := ⟨8, fun _ => none⟩
    let s := (Session.start false).state
    let s₁ : State := { s with memory := (s.memory.newFrame (some 0) false).2 }
    StmtSettles host 0 (.block [.expr (.ident "y")]) s (.fail (.notDefined "y") s₁) ∧
      (Fault.notDefined "y").isCatchable = true ∧
      ∃ e' s₂, e'.isCatchable = true ∧
        (∀ o, StmtSettles host 0 (.tryCatch [.expr (.ident "y")]
          (some ("x", [.throw (.ident "x")])) none) s o ↔ o = .fail e' s₂) ∧
        e'.message s₂.memory = "ReferenceError: y is not defined" ∧
        Conformance.Verdict.ofFault s₂.memory e' = .fail "ReferenceError" "y is not defined" ∧
        s₁.memory.Extends s₂.memory ∧
        s₂.output = s₁.output ∧ s₂.writes = s₁.writes ∧ s₂.depth = s₁.depth := by
  intro host s s₁
  have hbody : StmtSettles host 0 (.block [.expr (.ident "y")]) s (.fail (.notDefined "y") s₁) :=
    ⟨nofun, 3, by cbv⟩
  exact ⟨hbody, rfl, rethrow_is_transparent _ "x" hbody rfl⟩

end Eval

end SmallScript
