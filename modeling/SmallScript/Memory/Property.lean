import SmallScript.Fault
import SmallScript.Memory.Convert

namespace SmallScript

/-- The element that a key names: the canonical decimal text of a number below `2 ^ 32 - 1`. -/
def elementIndex? (key : String) : Option Nat :=
  let ds := key.toList
  if ds ≠ [] ∧ ds.all Lexical.isDigit then
    let n := Lexical.numberOf 10 ds
    if n < Nat.pow 2 32 - 1 ∧ Nat.toDigits 10 n = ds then some n else none
  else none

/-- The array length that a number is: a whole number of 32 bits, within the supported maximum. -/
def arrayLengthOf (x : Float) : Except Fault Nat :=
  match (Number.Double.decode x).whole? with
  | none => .error .arrayLength
  | some i =>
    if i < 0 ∨ (Nat.pow 2 32 : Nat) ≤ i then .error .arrayLength
    else if Fault.maxArrayLength < i.toNat then .error (.arrayTooLong i.toNat)
    else .ok i.toNat

def resize (items : Array Value) (n : Nat) : Array Value :=
  if n < items.size then items.take n
  else items ++ Array.replicate (n - items.size) .undefined

def writeElement (items : Array Value) (i : Nat) (v : Value) : Array Value :=
  if i < items.size then items.set! i v else (resize items i).push v

theorem size_resize (items : Array Value) (n : Nat) : (resize items n).size = n := by
  unfold resize
  split <;> simp <;> omega

theorem size_writeElement (items : Array Value) (i : Nat) (v : Value) :
    (writeElement items i v).size = max items.size (i + 1) := by
  unfold writeElement
  split
  · simp; omega
  · simp [size_resize]; omega

theorem getElem?_writeElement (items : Array Value) (i : Nat) (v : Value) :
    (writeElement items i v)[i]? = some v := by
  unfold writeElement
  split
  · simp [*]
  · rw [Array.getElem?_push, if_pos (by rw [size_resize])]

namespace Memory

def functionName (m : Memory) : Value → String
  | .builtin b => b.name
  | .closure c => (m.closureAt c).definition.name.getD ""
  | _ => ""

def functionLength (m : Memory) : Value → Nat
  | .closure c => (m.closureAt c).definition.params.length
  | _ => 1

def getProperty (m : Memory) (v : Value) (key : String) : Except Fault Value :=
  match v with
  | .undefined => .error (.readOf .undefined key)
  | .null => .error (.readOf .null key)
  | .bool _ | .number _ => .ok .undefined
  | .string s =>
    if key = "length" then .ok (.number (Number.Double.ofNat (Text.Units.length s)))
    else
      match elementIndex? key with
      | none => .ok .undefined
      | some i => .ok (((Text.Units.at? s i).map .string).getD .undefined)
  | .array a =>
    let items := m.arrayAt a
    if key = "length" then .ok (.number (Number.Double.ofNat items.size))
    else
      match elementIndex? key with
      | none => .ok .undefined
      | some i => .ok (items[i]?.getD .undefined)
  | .object o => .ok (((m.objectAt o).properties.get? key).getD .undefined)
  | .builtin _ | .closure _ =>
    if key = "name" then .ok (.string (m.functionName v))
    else if key = "length" then .ok (.number (Number.Double.ofNat (m.functionLength v)))
    else .ok .undefined

inductive Place where
  /-- Nowhere: the write is dropped. -/
  | nowhere
  | length (a : ArrayRef) (n : Nat)
  | element (a : ArrayRef) (i : Nat)
  | property (o : ObjectRef) (key : String)

/-- A write to an array. For a length the value is read as a number while the array is held for
writing: if its text contains the text of the same array, as in `a.length = a`, the interpreter
breaks off there without any outcome, where this definition goes on with the number. -/
def arrayPlace (m : Memory) (a : ArrayRef) (key : String) (v : Value) : Except Fault Place :=
  if key = "length" then (arrayLengthOf (m.toNumber v)).map (.length a)
  else
    match elementIndex? key with
    | none => .ok .nowhere
    | some i =>
      if (m.arrayAt a).size ≤ i ∧ Fault.maxArrayLength < i + 1 then
        .error (.arrayTooLong (i + 1))
      else .ok (.element a i)

def placeOf (m : Memory) (base : Value) (key : String) (v : Value) : Except Fault Place :=
  match base with
  | .undefined => .error (.writeTo .undefined key)
  | .null => .error (.writeTo .null key)
  | .array a => m.arrayPlace a key v
  | .object o => .ok (.property o key)
  | .bool _ | .number _ | .string _ | .builtin _ | .closure _ => .ok .nowhere

def write (m : Memory) (v : Value) : Place → Memory
  | .nowhere => m
  | .length a n => m.modifyArray a (resize · n)
  | .element a i => m.modifyArray a (writeElement · i v)
  | .property o key =>
    m.modifyObject o fun x => { x with properties := x.properties.set key v }

theorem closures_write (m : Memory) (v : Value) (p : Place) :
    (m.write v p).closures = m.closures := by
  cases p <;> rfl

def setProperty (m : Memory) (base : Value) (key : String) (v : Value) : Except Fault Memory :=
  (m.placeOf base key v).map (m.write v)

end Memory

end SmallScript
