import SmallScript.Eval.Effect
import SmallScript.Eval.Operator
import SmallScript.Proofs.Strip.Tree

namespace SmallScript

def Closure.strip (c : Closure) : Closure := ⟨c.definition.strip, c.scope⟩

def Memory.strip (m : Memory) : Memory := { m with closures := m.closures.map Closure.strip }

def State.strip (s : State) : State := { s with memory := s.memory.strip }

namespace Memory

variable (m : Memory)

theorem closureAt_strip (c : ClosureRef) : m.strip.closureAt c = (m.closureAt c).strip := by
  simp only [closureAt, strip, Array.getElem?_map]
  cases m.closures[c]? <;> rfl

theorem newClosure_strip (definition : Function) (f : FrameRef) :
    m.strip.newClosure definition.strip f =
      ((m.newClosure definition f).1, (m.newClosure definition f).2.strip) := by
  simp only [newClosure, strip, Array.size_map, Array.map_push]
  rfl

theorem nearest?_strip (p : Frame → Bool) (n : Nat) (f : FrameRef) :
    m.strip.nearest? p n f = m.nearest? p n f := by
  induction n generalizing f with
  | zero => rfl
  | succ n ih =>
      simp only [nearest?, ih]
      rfl

theorem resolve?_strip (f : FrameRef) (x : String) : m.strip.resolve? f x = m.resolve? f x :=
  m.nearest?_strip _ _ f

theorem lookup?_strip (f : FrameRef) (x : String) : m.strip.lookup? f x = m.lookup? f x := by
  simp only [lookup?, resolve?_strip]
  rfl

theorem readName_strip (f : FrameRef) (x : String) : m.strip.readName f x = m.readName f x := by
  simp only [readName, lookup?_strip]

theorem writableFrame_strip (f : FrameRef) (x : String) :
    m.strip.writableFrame f x = m.writableFrame f x := by
  simp only [writableFrame, resolve?_strip, outermost, nearest?_strip]
  rfl

theorem declareVar_strip (f : FrameRef) (x : String) :
    m.strip.declareVar f x = (m.declareVar f x).strip := by
  have hframe : m.strip.varFrame f = m.varFrame f := by
    simp only [varFrame, nearest?_strip]
  have hhere : m.strip.isDeclaredHere (m.varFrame f) x = m.isDeclaredHere (m.varFrame f) x := rfl
  simp only [declareVar, hframe, hhere]
  split <;> rfl

theorem functionText_strip (f : Function) : functionText f.strip = functionText f := by
  simp only [functionText, paramText, f.strip_name, f.strip_params]

theorem displayFrom_strip (n : Nat) (path : List ArrayRef) (v : Value) :
    m.strip.displayFrom n path v = m.displayFrom n path v := by
  induction n generalizing path v with
  | zero => rfl
  | succ n ih =>
      cases v with
      | closure c =>
          simp only [displayFrom, closureAt_strip]
          exact functionText_strip _
      | array a =>
          simp only [displayFrom, ih]
          rfl
      | object o =>
          simp only [displayFrom, ih]
          rfl
      | _ => rfl

theorem display_strip (v : Value) : m.strip.display v = m.display v := m.displayFrom_strip _ _ v

theorem inspectFrom_strip (n : Nat) (arrays : List ArrayRef) (objects : List ObjectRef) (v : Value) :
    m.strip.inspectFrom n arrays objects v = m.inspectFrom n arrays objects v := by
  induction n generalizing arrays objects v with
  | zero => rfl
  | succ n ih =>
      have hinspect (arrays : List ArrayRef) (objects : List ObjectRef) :
          m.strip.inspectFrom n arrays objects = m.inspectFrom n arrays objects :=
        funext (ih arrays objects)
      cases v <;> simp only [inspectFrom, hinspect, display_strip] <;> rfl

theorem inspect_strip (v : Value) : m.strip.inspect v = m.inspect v := m.inspectFrom_strip _ _ _ v

theorem toNumber_strip (v : Value) : m.strip.toNumber v = m.toNumber v := by
  simp only [toNumber, display_strip]

theorem toPrimitive_strip (v : Value) : m.strip.toPrimitive v = m.toPrimitive v := by
  simp only [toPrimitive, display_strip]

theorem looseEquals_strip (v w : Value) : m.strip.looseEquals v w = m.looseEquals v w := by
  simp only [looseEquals, looseEqualsPlain, display_strip]

theorem compareValues_strip (v w : Value) : m.strip.compareValues v w = m.compareValues v w := by
  simp only [compareValues, toPrimitive_strip, toNumber_strip]

theorem binary_strip (op : BinaryOp) (v w : Value) : m.strip.binary op v w = m.binary op v w := by
  simp only [binary, arithmetic, add, bitwise, inOrder, toWord, toNumber_strip, toPrimitive_strip,
    display_strip, looseEquals_strip, compareValues_strip]

theorem compound_strip (op : AssignOp) (old new : Value) :
    m.strip.compound op old new = m.compound op old new := by
  simp only [compound, arithmetic, add, toNumber_strip, toPrimitive_strip, display_strip]

theorem unary_strip (op : UnaryOp) (v : Value) : m.strip.unary op v = m.unary op v := by
  simp only [unary, toWord, toNumber_strip]

theorem getProperty_strip (v : Value) (key : String) :
    m.strip.getProperty v key = m.getProperty v key := by
  cases v with
  | closure c =>
      simp only [getProperty, functionName, functionLength, closureAt_strip, Closure.strip,
        Function.strip_name, Function.strip_params]
  | _ => rfl

theorem placeOf_strip (base : Value) (key : String) (v : Value) :
    m.strip.placeOf base key v = m.placeOf base key v := by
  cases base with
  | array a =>
      simp only [placeOf, arrayPlace, toNumber_strip]
      rfl
  | _ => rfl

theorem write_strip (v : Value) (p : Place) : m.strip.write v p = (m.write v p).strip := by
  cases p <;> rfl

end Memory

namespace Fault

theorem message_strip (m : Memory) (e : Fault) : e.message m.strip = e.message m := by
  cases e with
  | thrown v =>
      simp only [message, m.display_strip, m.inspect_strip]
      rfl
  | _ => rfl

theorem toValue_strip (m : Memory) (e : Fault) :
    e.toValue m.strip = ((e.toValue m).1, (e.toValue m).2.strip) := by
  cases e <;> rfl

end Fault

end SmallScript
