import SmallScript.Table
import SmallScript.Value

namespace SmallScript

inductive ObjectClass where
  | plain
  /-- Made by an error constructor or raised while a program runs. -/
  | error
  deriving DecidableEq

structure Object where
  cls : ObjectClass
  properties : Table Value

instance : Inhabited Object := ⟨.plain, []⟩

structure Closure where
  definition : Function
  scope : FrameRef

structure Binding where
  value : Value
  isMutable : Bool

structure Frame where
  bindings : Table Binding
  parent : Option FrameRef
  /-- Set on the global frame and the frames of calls, where `var` declarations land. -/
  isBoundary : Bool

section Cells

variable {α : Type} {cells : Array α} {i : Nat} {f g : α → α}

theorem modify_congr (h : ∀ x ∈ cells[i]?, f x = g x) : cells.modify i f = cells.modify i g := by
  apply Array.ext_getElem?
  intro j
  rw [Array.getElem?_modify, Array.getElem?_modify]
  split
  · subst j
    exact Option.map_congr h
  · rfl

theorem modify_id (cells : Array α) (i : Nat) : cells.modify i id = cells := by
  apply Array.ext_getElem?
  simp [Array.getElem?_modify]

theorem modify_modify (cells : Array α) (i : Nat) (f g : α → α) :
    (cells.modify i f).modify i g = cells.modify i (g ∘ f) := by
  apply Array.ext_getElem?
  intro j
  by_cases hj : i = j <;> simp [Array.getElem?_modify, hj]

theorem modify_push_size (cells : Array α) (x : α) (f : α → α) :
    (cells.push x).modify cells.size f = cells.push (f x) := by
  apply Array.ext_getElem?
  intro j
  by_cases hj : j = cells.size
  · rw [Array.getElem?_modify, if_pos hj.symm, hj, Array.getElem?_push_size,
      Array.getElem?_push_size, Option.map_some]
  · simp [Array.getElem?_modify, Array.getElem?_push, hj, Ne.symm hj]

end Cells

structure Memory where
  arrays : Array (Array Value)
  objects : Array Object
  closures : Array Closure
  frames : Array Frame

namespace Memory

def empty : Memory := ⟨#[], #[], #[], #[]⟩

def arrayAt (m : Memory) (a : ArrayRef) : Array Value := m.arrays[a]?.getD #[]

def objectAt (m : Memory) (o : ObjectRef) : Object := m.objects[o]?.getD default

def closureAt (m : Memory) (c : ClosureRef) : Closure := m.closures[c]?.getD ⟨.mk none [] [], 0⟩

def frameAt (m : Memory) (f : FrameRef) : Frame := m.frames[f]?.getD ⟨[], none, true⟩

def newArray (m : Memory) (items : Array Value) : ArrayRef × Memory :=
  (m.arrays.size, { m with arrays := m.arrays.push items })

def newObject (m : Memory) (properties : Table Value) : ObjectRef × Memory :=
  (m.objects.size, { m with objects := m.objects.push ⟨.plain, properties⟩ })

def newError (m : Memory) (name message : String) : ObjectRef × Memory :=
  (m.objects.size,
    { m with
      objects := m.objects.push
        ⟨.error, [("name", .string name), ("message", .string message)]⟩ })

def newClosure (m : Memory) (definition : Function) (scope : FrameRef) : ClosureRef × Memory :=
  (m.closures.size, { m with closures := m.closures.push ⟨definition, scope⟩ })

def newFrame (m : Memory) (parent : Option FrameRef) (isBoundary : Bool) : FrameRef × Memory :=
  (m.frames.size, { m with frames := m.frames.push ⟨[], parent, isBoundary⟩ })

def modifyArray (m : Memory) (a : ArrayRef) (f : Array Value → Array Value) : Memory :=
  { m with arrays := m.arrays.modify a f }

def modifyObject (m : Memory) (o : ObjectRef) (f : Object → Object) : Memory :=
  { m with objects := m.objects.modify o f }

def modifyFrame (m : Memory) (i : FrameRef) (f : Frame → Frame) : Memory :=
  { m with frames := m.frames.modify i f }

def isError (m : Memory) : Value → Bool
  | .object o => (m.objectAt o).cls == .error
  | _ => false

theorem arrayAt_modifyArray (m : Memory) {a : ArrayRef} (h : a < m.arrays.size)
    (f : Array Value → Array Value) (b : ArrayRef) :
    (m.modifyArray a f).arrayAt b = if a = b then f (m.arrayAt a) else m.arrayAt b := by
  by_cases hb : a = b
  · subst b
    simp [modifyArray, arrayAt, Array.getElem_modify, h]
  · simp [modifyArray, arrayAt, Array.getElem?_modify, hb]

theorem objectAt_modifyObject (m : Memory) {o : ObjectRef} (h : o < m.objects.size)
    (f : Object → Object) (p : ObjectRef) :
    (m.modifyObject o f).objectAt p = if o = p then f (m.objectAt o) else m.objectAt p := by
  by_cases hp : o = p
  · subst p
    simp [modifyObject, objectAt, Array.getElem_modify, h]
  · simp [modifyObject, objectAt, Array.getElem?_modify, hp]

theorem frameAt_modifyFrame (m : Memory) {i : FrameRef} (h : i < m.frames.size)
    (f : Frame → Frame) (j : FrameRef) :
    (m.modifyFrame i f).frameAt j = if i = j then f (m.frameAt i) else m.frameAt j := by
  by_cases hj : i = j
  · subst j
    simp [modifyFrame, frameAt, Array.getElem_modify, h]
  · simp [modifyFrame, frameAt, Array.getElem?_modify, hj]

theorem frameAt_newFrame (m : Memory) (parent : Option FrameRef) (isBoundary : Bool)
    (i : FrameRef) :
    (m.newFrame parent isBoundary).2.frameAt i =
      if i = m.frames.size then ⟨[], parent, isBoundary⟩ else m.frameAt i := by
  by_cases hi : i = m.frames.size
  · simp [newFrame, frameAt, hi]
  · simp [newFrame, frameAt, Array.getElem?_push, hi]

theorem modifyObject_newObject (m : Memory) (properties : Table Value) (f : Object → Object) :
    (m.newObject properties).2.modifyObject m.objects.size f =
      { m with objects := m.objects.push (f ⟨.plain, properties⟩) } := by
  simp only [newObject, modifyObject, modify_push_size]

theorem modifyFrame_newFrame (m : Memory) (parent : Option FrameRef) (isBoundary : Bool)
    (f : Frame → Frame) :
    (m.newFrame parent isBoundary).2.modifyFrame m.frames.size f =
      { m with frames := m.frames.push (f ⟨[], parent, isBoundary⟩) } := by
  simp only [newFrame, modifyFrame, modify_push_size]

end Memory

end SmallScript
