import SmallScript.Eval.Program
import SmallScript.Proofs.Outcome
import SmallScript.Proofs.Parts

namespace SmallScript

/-- The faults that a step raises on its own, whatever the program and the host. -/
def Fault.IsOrdinary : Fault → Prop
  | unparsable _ | early _ | assignTarget | sinkFailed _ | strayJump _ | strayJumpInBody
  | notShortCircuited _ => False
  | _ => True

namespace Eval

open Effect

structure Contract (host : Host) where
  /-- What holds of every part of a tree that runs. -/
  ok : Part → Prop
  /-- How a statement may finish at a place. -/
  allowed : Place → Completion → Prop
  /-- With what a run may fail. -/
  admits : Fault → Prop
  ok_empty : ok (.scope (.function [] []))
  allowed_normal : ∀ p v, allowed p (.normal v)
  allowed_broke : ∀ p, ok (.stmt p .breakLoop) → allowed p .broke
  allowed_continued : ∀ p, ok (.stmt p .continueLoop) → allowed p .continued
  allowed_returned : ∀ p e v, ok (.stmt p (.returnValue e)) → allowed p (.returned v)
  allowed_loop : ∀ p v, allowed p.loop (.returned v) → allowed p (.returned v)
  admits_ordinary : ∀ e, e.IsOrdinary → admits e
  admits_sink : ∀ n m, host.sinkFault n = some m → admits (.sinkFailed m)
  admits_assign : ∀ op l r, ok (.expr (.assign op l r)) → l.isTarget = true ∨ admits .assignTarget
  admits_update : ∀ op e, ok (.expr (.update op e)) → e.isTarget = true ∨ admits .assignTarget
  admits_body : ∀ c, allowed .body c → c = .broke ∨ c = .continued → admits .strayJumpInBody
  admits_top : ∀ c m, allowed .top c → (∃ v, c = .normal v) ∨ admits (.strayJump (describeJump m c))

namespace Contract

variable {host : Host} (K : Contract host)

def Good (xs : List Part) : Prop := ∀ x ∈ xs, K.ok x

@[simp] theorem good_nil : K.Good [] := nofun

@[simp] theorem good_cons (x : Part) (xs : List Part) :
    K.Good (x :: xs) ↔ K.ok x ∧ K.Good xs :=
  List.forall_mem_cons

@[simp] theorem good_append (xs ys : List Part) : K.Good (xs ++ ys) ↔ K.Good xs ∧ K.Good ys :=
  List.forall_mem_append

def Holds (s : State) : Prop := ∀ c ∈ s.memory.closures, K.Good (functionParts c.definition)

def Ends {α : Type} (post : α → Prop) : Outcome State α → Prop
  | .done a s => K.Holds s ∧ post a
  | .fail e s => K.Holds s ∧ K.admits e
  | .exhausted => True

def Result {α : Type} (post : α → Prop) : Except Fault α → Prop
  | .ok a => post a
  | .error e => K.admits e

section

variable {K} {α β : Type} {P : α → Prop} {Q : β → Prop} {o : Outcome State α}

theorem Ends.holds {s : State} (h : K.Ends P o) (hs : o.state? = some s) : K.Holds s := by
  cases o with
  | done a s' => exact Option.some.inj hs ▸ h.1
  | fail e s' => exact Option.some.inj hs ▸ h.1
  | exhausted => cases hs

theorem Ends.bind {f : α → State → Outcome State β} (h : K.Ends P o)
    (hf : ∀ a s, o = .done a s → P a → K.Holds s → K.Ends Q (f a s)) : K.Ends Q (o.bind f) := by
  cases o with
  | done a s => exact hf a s rfl h.2 h.1
  | fail e s => exact h
  | exhausted => trivial

theorem Ends.leave (h : K.Ends P o) : K.Ends P (o.mapState State.leave) := by
  cases o with
  | done a s => exact h
  | fail e s => exact h
  | exhausted => trivial

theorem Ends.caught (h : K.Ends P o) : K.Ends (K.Result P) o.caught := by
  cases o with
  | done a s => exact h
  | fail e s => exact h
  | exhausted => trivial

end

def Passes {β : Type} (p : Place) : β ⊕ Completion → Prop
  | .inl _ => True
  | .inr c => K.allowed p c

theorem good_closureAt {s : State} (hs : K.Holds s) (c : ClosureRef) :
    K.Good (functionParts (s.memory.closureAt c).definition) := by
  rw [Memory.closureAt]
  cases hc : s.memory.closures[c]? with
  | none => simpa [functionParts, stmtsParts] using K.ok_empty
  | some closure => exact hs _ (Array.mem_of_getElem? hc)

theorem holds_newClosure {s : State} (hs : K.Holds s) {definition : Function}
    (h : K.Good (functionParts definition)) (f : FrameRef) :
    K.Holds { s with memory := (s.memory.newClosure definition f).2 } := by
  intro c hc
  rcases Array.mem_push.mp hc with hc | rfl
  · exact hs c hc
  · exact h

end Contract

/-- A contract, and a relation between outcomes that is kept when both go on in the same way. -/
structure Comparison (host : Host) extends Contract host where
  like : ∀ {α : Type}, Outcome State α → Outcome State α → Prop
  like_refl : ∀ {α : Type} (o : Outcome State α), like o o
  like_bind : ∀ {α β : Type} {o o' : Outcome State α} {f g : α → State → Outcome State β},
    like o o' → (∀ a s, o' = .done a s → like (f a s) (g a s)) → like (o.bind f) (o'.bind g)
  like_leave : ∀ {α : Type} {o o' : Outcome State α},
    like o o' → like (o.mapState State.leave) (o'.mapState State.leave)

namespace Comparison

variable {host : Host} (R : Comparison host) {α β : Type}

/-- From good states on the two effects have outcomes that are alike, and keep the contract. -/
def AgreeOn (post : α → Prop) (x y : Effect α) : Prop :=
  ∀ s, R.Holds s → R.like (x s) (y s) ∧ R.Ends post (y s)

def Catches : Prop :=
  ∀ {o o' : Outcome State Completion}, R.like o o' → R.like o.caught o'.caught

abbrev Agree (x y : Effect α) : Prop := R.AgreeOn (fun _ => True) x y

def Loops (n n' : Nat) : Prop :=
  n = n' ∨ n ≤ n' ∧ ∀ {α : Type} (o : Outcome State α), R.like .exhausted o

variable {R} {P : α → Prop} {Q : β → Prop}

theorem AgreeOn.bind {x y : Effect α} {f g : α → Effect β} (hx : R.AgreeOn P x y)
    (hf : ∀ a, P a → R.AgreeOn Q (f a) (g a)) : R.AgreeOn Q (x >>= f) (y >>= g) := by
  intro s hs
  obtain ⟨hlike, hends⟩ := hx s hs
  rw [bind_apply, bind_apply]
  refine ⟨R.like_bind hlike ?_, hends.bind fun a s' _ ha hs' => (hf a ha s' hs').2⟩
  intro a s' hy
  rw [hy] at hends
  exact (hf a hends.2 s' hends.1).1

theorem Agree.bind {x y : Effect α} {f g : α → Effect β} (hx : R.Agree x y)
    (hf : ∀ a, R.AgreeOn Q (f a) (g a)) : R.AgreeOn Q (x >>= f) (y >>= g) :=
  AgreeOn.bind hx fun a _ => hf a

theorem agreeOn_self {x : Effect α} (h : ∀ s, R.Holds s → R.Ends P (x s)) : R.AgreeOn P x x :=
  fun s hs => ⟨R.like_refl _, h s hs⟩

theorem agree_pure {a : α} (h : P a) : R.AgreeOn P (pure a) (pure a) :=
  agreeOn_self fun _ hs => ⟨hs, h⟩

theorem agree_fail {e : Fault} (h : R.admits e) : R.AgreeOn P (fail e) (fail e) :=
  agreeOn_self fun _ hs => ⟨hs, h⟩

theorem agree_exhausted : R.AgreeOn P (fun _ => .exhausted) (fun _ => .exhausted) :=
  agreeOn_self fun _ _ => trivial

theorem agree_look (f : Memory → α) : R.Agree (look f) (look f) :=
  agreeOn_self fun _ hs => ⟨hs, trivial⟩

theorem agree_depth : R.Agree depth depth := agreeOn_self fun _ hs => ⟨hs, trivial⟩

theorem agree_setDepth (n : Nat) : R.Agree (setDepth n) (setDepth n) :=
  agreeOn_self fun _ hs => ⟨hs, trivial⟩

theorem agree_query {f : Memory → Except Fault α} (h : ∀ m e, f m = .error e → e.IsOrdinary) :
    R.Agree (query f) (query f) := by
  apply agreeOn_self
  intro s hs
  rw [query]
  cases hf : f s.memory with
  | ok a => exact ⟨hs, trivial⟩
  | error e => exact ⟨hs, R.admits_ordinary e (h _ _ hf)⟩

theorem agree_change {f : Memory → Memory} (h : ∀ m, (f m).closures = m.closures) :
    R.Agree (change f) (change f) := by
  apply agreeOn_self
  intro s hs
  refine ⟨?_, trivial⟩
  intro c hc
  exact hs c (h s.memory ▸ hc)

theorem agree_allocate {f : Memory → α × Memory} (h : ∀ m, (f m).2.closures = m.closures) :
    R.Agree (allocate f) (allocate f) := by
  apply agreeOn_self
  intro s hs
  refine ⟨?_, trivial⟩
  intro c hc
  exact hs c (h s.memory ▸ hc)

theorem agree_writeLine (line : String) : R.Agree (writeLine host line) (writeLine host line) := by
  apply agreeOn_self
  intro s hs
  unfold writeLine
  cases h : host.sinkFault s.writes with
  | none => simpa only [h] using ⟨hs, trivial⟩
  | some m => simpa only [h] using ⟨hs, R.admits_sink _ _ h⟩

theorem agree_closureAt (c : ClosureRef) :
    R.AgreeOn (fun closure => R.Good (functionParts closure.definition))
      (look fun m => m.closureAt c) (look fun m => m.closureAt c) :=
  agreeOn_self fun _ hs => ⟨hs, R.good_closureAt hs c⟩

theorem agree_newClosure {definition : Function} (h : R.Good (functionParts definition))
    (f : FrameRef) : R.Agree (newClosure definition f) (newClosure definition f) :=
  agreeOn_self fun _ hs => ⟨R.holds_newClosure hs h f, trivial⟩

theorem AgreeOn.deeper {x y : Effect α} (h : R.AgreeOn P x y) :
    R.AgreeOn P (deeper x) (deeper y) := by
  intro s hs
  obtain ⟨hlike, hends⟩ := h { s with depth := s.depth + 1 } hs
  rw [deeper_apply, deeper_apply]
  exact ⟨R.like_leave hlike, hends.leave⟩

theorem AgreeOn.outcome (hR : R.Catches) {P : Completion → Prop} {x y : Effect Completion}
    (h : R.AgreeOn P x y) : R.AgreeOn (R.Result P) (outcome x) (outcome y) := by
  intro s hs
  obtain ⟨hlike, hends⟩ := h s hs
  rw [outcome_apply, outcome_apply]
  exact ⟨hR hlike, hends.caught⟩

theorem agree_ofExcept {r : Except Fault α} (h : R.Result P r) :
    R.AgreeOn P (ofExcept r) (ofExcept r) := by
  cases r with
  | ok a => exact agree_pure h
  | error e => exact agree_fail h

theorem AgreeOn.right {x y : Effect α} (h : R.AgreeOn P x y) : R.AgreeOn P y y :=
  agreeOn_self fun s hs => (h s hs).2

theorem agree_iterate_same {p : Place} {step step' : β → Effect (β ⊕ Completion)}
    (h : ∀ b, R.AgreeOn (R.Passes p) (step b) (step' b)) (n : Nat) (b : β) :
    R.AgreeOn (R.allowed p) (iterate step n b) (iterate step' n b) := by
  induction n generalizing b with
  | zero => exact agree_exhausted
  | succ n ih =>
      rw [iterate_succ, iterate_succ]
      apply (h b).bind
      rintro (b | c) hc
      · exact ih b
      · exact agree_pure hc

theorem agree_iterate {p : Place} {step step' : β → Effect (β ⊕ Completion)}
    (h : ∀ b, R.AgreeOn (R.Passes p) (step b) (step' b)) {n n' : Nat} (hn : R.Loops n n') (b : β) :
    R.AgreeOn (R.allowed p) (iterate step n b) (iterate step' n' b) := by
  rcases hn with rfl | ⟨hle, hgives⟩
  · exact agree_iterate_same h n b
  · induction n generalizing n' b with
    | zero =>
        intro s hs
        exact ⟨hgives _, (agree_iterate_same (fun b => (h b).right) n' b s hs).2⟩
    | succ n ih =>
        obtain ⟨n', rfl⟩ := Nat.exists_eq_add_of_le' hle
        rw [iterate_succ, ← Nat.add_assoc, iterate_succ]
        apply (h b).bind
        rintro (b | c) hc
        · exact ih b (Nat.le_add_left n n')
        · exact agree_pure hc

end Comparison

end Eval

end SmallScript
