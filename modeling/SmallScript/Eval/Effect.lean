import SmallScript.Memory.Property
import SmallScript.Memory.Scope

namespace SmallScript

/-- What a program runs on: how deep calls may nest, and which writes fail with which message. -/
structure Host where
  maxDepth : Nat
  sinkFault : Nat → Option String

structure State where
  memory : Memory
  output : String
  /-- The number of writes so far, failed ones included. -/
  writes : Nat
  depth : Nat

def State.leave : State → State
  | ⟨memory, output, writes, depth⟩ => ⟨memory, output, writes, depth - 1⟩

/-- How a computation over states of type `σ` ends. -/
inductive Outcome (σ α : Type) where
  | done (a : α) (s : σ)
  | fail (e : Fault) (s : σ)
  | exhausted

def Effect (α : Type) := State → Outcome State α

namespace Effect

variable {α β γ : Type}

@[always_inline]
instance : Monad Effect where
  pure a := fun s => .done a s
  bind x f := fun s =>
    match x s with
    | .done a s => f a s
    | .fail e s => .fail e s
    | .exhausted => .exhausted

instance : LawfulMonad Effect :=
  .mk' _
    (by
      intro α x
      funext s
      show (match x s with | .done a s => _ | .fail e s => _ | .exhausted => _) = _
      cases x s <;> rfl)
    (by intros; rfl)
    (by
      intro α β γ x f g
      funext s
      simp only [bind]
      cases x s <;> rfl)

@[inline]
def fail (e : Fault) : Effect α := fun s => .fail e s

@[inline]
def ofExcept : Except Fault α → Effect α
  | .ok a => fun s => .done a s
  | .error e => fun s => .fail e s

@[inline]
def look (f : Memory → α) : Effect α := fun s => .done (f s.memory) s

@[inline]
def query (f : Memory → Except Fault α) : Effect α := fun s => ofExcept (f s.memory) s

@[inline]
def change (f : Memory → Memory) : Effect Unit
  | ⟨memory, output, writes, depth⟩ => .done () ⟨f memory, output, writes, depth⟩

@[inline]
def allocate (f : Memory → α × Memory) : Effect α
  | ⟨memory, output, writes, depth⟩ =>
    let (a, memory) := f memory
    .done a ⟨memory, output, writes, depth⟩

@[inline]
def outcome (x : Effect α) : Effect (Except Fault α) := fun s =>
  match x s with
  | .done a s => .done (.ok a) s
  | .fail e s => .done (.error e) s
  | .exhausted => .exhausted

def depth : Effect Nat := fun s => .done s.depth s

def setDepth (n : Nat) : Effect Unit
  | ⟨memory, output, writes, _⟩ => .done () ⟨memory, output, writes, n⟩

@[inline]
def deeper (x : Effect α) : Effect α
  | ⟨memory, output, writes, depth⟩ =>
    match x ⟨memory, output, writes, depth + 1⟩ with
    | .done a s => .done a s.leave
    | .fail e s => .fail e s.leave
    | .exhausted => .exhausted

def writeLine (host : Host) (line : String) : Effect Unit
  | ⟨memory, output, writes, depth⟩ =>
    match host.sinkFault writes with
    | some e => .fail (.sinkFailed e) ⟨memory, output, writes + 1, depth⟩
    | none => .done () ⟨memory, output ++ line ++ "\n", writes + 1, depth⟩

def iterate (step : β → Effect (β ⊕ γ)) : Nat → β → Effect γ
  | 0, _, _ => .exhausted
  | n + 1, b, s =>
    match step b s with
    | .done (.inl b) s => iterate step n b s
    | .done (.inr c) s => .done c s
    | .fail e s => .fail e s
    | .exhausted => .exhausted

def getProperty (v : Value) (key : String) : Effect Value :=
  query fun m => m.getProperty v key

def setProperty (base : Value) (key : String) (v : Value) : Effect Unit := do
  let place ← query fun m => m.placeOf base key v
  change fun m => m.write v place

def readName (f : FrameRef) (x : String) : Effect Value :=
  query fun m => m.readName f x

def assign (f : FrameRef) (x : String) (v : Value) : Effect Unit := do
  let f' ← query fun m => m.writableFrame f x
  change fun m => m.declare f' x v true

def declare (f : FrameRef) (x : String) (v : Value) (isMutable : Bool) : Effect Unit :=
  change fun m => m.declare f x v isMutable

def blockFrame (f : FrameRef) : Effect FrameRef :=
  allocate fun m => m.newFrame (some f) false

def newArray (items : List Value) : Effect Value :=
  allocate fun m =>
    let (a, m) := m.newArray items.toArray
    (.array a, m)

def newObject (properties : Table Value) : Effect Value :=
  allocate fun m =>
    let (o, m) := m.newObject properties
    (.object o, m)

def newError (name message : String) : Effect Value :=
  allocate fun m =>
    let (o, m) := m.newError name message
    (.object o, m)

def newClosure (definition : Function) (f : FrameRef) : Effect Value :=
  allocate fun m =>
    let (c, m) := m.newClosure definition f
    (.closure c, m)

end Effect

end SmallScript
