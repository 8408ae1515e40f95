import SmallScript.Fault

namespace SmallScript.Memory

def nearest? (m : Memory) (p : Frame → Bool) : Nat → FrameRef → Option FrameRef
  | 0, _ => none
  | n + 1, f =>
    let frame := m.frameAt f
    if p frame then some f
    else
      match frame.parent with
      | none => none
      | some f' => nearest? m p n f'

/-- A frame is younger than the one around it, so a chain is no longer than its first reference. -/
def chainFuel (f : FrameRef) : Nat := f + 1

def resolve? (m : Memory) (f : FrameRef) (x : String) : Option FrameRef :=
  m.nearest? (fun frame => frame.bindings.has x) (chainFuel f) f

def varFrame (m : Memory) (f : FrameRef) : FrameRef :=
  (m.nearest? (fun frame => frame.isBoundary || frame.parent.isNone) (chainFuel f) f).getD f

def outermost (m : Memory) (f : FrameRef) : FrameRef :=
  (m.nearest? (fun frame => frame.parent.isNone) (chainFuel f) f).getD f

def bindingAt? (m : Memory) (f : FrameRef) (x : String) : Option Binding :=
  (m.frameAt f).bindings.get? x

def lookup? (m : Memory) (f : FrameRef) (x : String) : Option Value := do
  let f' ← m.resolve? f x
  let b ← m.bindingAt? f' x
  return b.value

def readName (m : Memory) (f : FrameRef) (x : String) : Except Fault Value :=
  match m.lookup? f x with
  | some v => .ok v
  | none => .error (.notDefined x)

def declare (m : Memory) (f : FrameRef) (x : String) (v : Value) (isMutable : Bool) : Memory :=
  m.modifyFrame f fun frame => { frame with bindings := frame.bindings.set x ⟨v, isMutable⟩ }

def isDeclaredHere (m : Memory) (f : FrameRef) (x : String) : Bool :=
  (m.frameAt f).bindings.has x

/-- Declares a `var`: `undefined`, unless its frame binds the name already. -/
def declareVar (m : Memory) (f : FrameRef) (x : String) : Memory :=
  let f' := m.varFrame f
  if m.isDeclaredHere f' x then m else m.declare f' x .undefined true

/-- The frame that a write to `x` goes to: that of its nearest binding, or the outermost one. -/
def writableFrame (m : Memory) (f : FrameRef) (x : String) : Except Fault FrameRef :=
  match m.resolve? f x with
  | none => .ok (m.outermost f)
  | some f' =>
    match m.bindingAt? f' x with
    | some ⟨_, false⟩ => .error .constantAssigned
    | _ => .ok f'

/-- Writes to the nearest binding of `x`, or makes one in the outermost frame. -/
def assign (m : Memory) (f : FrameRef) (x : String) (v : Value) : Except Fault Memory :=
  (m.writableFrame f x).map fun f' => m.declare f' x v true

def declareAll (m : Memory) (f : FrameRef) (bindings : List (String × Value)) (isMutable : Bool) :
    Memory :=
  bindings.foldl (fun m (x, v) => m.declare f x v isMutable) m

def newGlobal (m : Memory) : FrameRef × Memory :=
  let (f, m) := m.newFrame none true
  let m := m.declareAll f (Builtin.all.map fun b => (b.name, .builtin b)) true
  let m := m.declareAll f
    [("undefined", .undefined), ("NaN", .number Number.Double.nan),
     ("Infinity", .number Number.Double.infinity)] false
  (f, m)

theorem closures_declareVar (m : Memory) (f : FrameRef) (x : String) :
    (m.declareVar f x).closures = m.closures := by
  simp only [declareVar]
  split <;> rfl

theorem closures_declareAll (m : Memory) (f : FrameRef) (bindings : List (String × Value))
    (isMutable : Bool) : (m.declareAll f bindings isMutable).closures = m.closures := by
  rw [declareAll]
  induction bindings generalizing m with
  | nil => rfl
  | cons b bindings ih => exact ih (m.declare f b.1 b.2 isMutable)

theorem closures_newGlobal (m : Memory) : m.newGlobal.2.closures = m.closures := by
  simp only [newGlobal, closures_declareAll]
  rfl

end SmallScript.Memory
