import SmallScript.Eval.Operator
import SmallScript.Proofs.Memory.Growth
import Mathlib

namespace SmallScript

namespace Memory

variable {m m' : Memory} {g i j f : FrameRef} {code : Table Binding → Table Binding} {x : String}
  {v : Value}

/-- The memory in which the bindings of the frame `i` are in another code. -/
def recode (i : FrameRef) (code : Table Binding → Table Binding) (m : Memory) : Memory :=
  m.modifyFrame i fun frame => { frame with bindings := code frame.bindings }

@[simp] theorem size_recode : (m.recode i code).frames.size = m.frames.size := by
  simp [recode, modifyFrame]

theorem frameAt_recode_of_ne (h : f ≠ i) : (m.recode i code).frameAt f = m.frameAt f := by
  simp [recode, modifyFrame, frameAt, Array.getElem?_modify, Ne.symm h]

theorem frameAt_recode_self (h : i < m.frames.size) :
    (m.recode i code).frameAt i = { m.frameAt i with bindings := code (m.frameAt i).bindings } := by
  rw [recode, frameAt_modifyFrame m h, if_pos rfl]

@[simp] theorem parent_recode (f : FrameRef) :
    ((m.recode i code).frameAt f).parent = (m.frameAt f).parent := by
  by_cases hf : f = i
  · subst f
    by_cases hi : i < m.frames.size
    · rw [frameAt_recode_self hi]
    · rw [frameAt_of_size_le (by simpa using hi), frameAt_of_size_le (by simpa using hi)]
  · rw [frameAt_recode_of_ne hf]

theorem modifyFrame_modifyFrame (m : Memory) (i : FrameRef) (p q : Frame → Frame) :
    (m.modifyFrame i p).modifyFrame i q = m.modifyFrame i (q ∘ p) := by
  simp only [modifyFrame, modify_modify]

theorem modifyFrame_comm (m : Memory) (h : f ≠ i) (p q : Frame → Frame) :
    (m.modifyFrame i p).modifyFrame f q = (m.modifyFrame f q).modifyFrame i p := by
  have hframes : (m.frames.modify i p).modify f q = (m.frames.modify f q).modify i p := by
    apply Array.ext
    · simp
    · intro k hk _
      simp only [Array.getElem_modify]
      by_cases hki : i = k
      · have hkf : ¬f = k := fun hkf => h (hkf.trans hki.symm)
        simp [hki, hkf]
      · simp [hki]
  simp only [modifyFrame, hframes]

theorem modifyFrame_id (m : Memory) (i : FrameRef) {p : Frame → Frame} (h : ∀ frame, p frame = frame) :
    m.modifyFrame i p = m := by
  have hid : p = id := funext h
  rw [hid, modifyFrame, modify_id]

/-- A code that can be undone. -/
theorem recode_recode {decode : Table Binding → Table Binding} (h : ∀ t, decode (code t) = t) :
    (m.recode i code).recode i decode = m := by
  rw [recode, recode, modifyFrame_modifyFrame]
  exact m.modifyFrame_id i fun frame => by simp [h]

theorem Encloses.congr (h : m.Encloses i f)
    (hparent : ∀ f, (m'.frameAt f).parent = (m.frameAt f).parent) : m'.Encloses i f := by
  induction h with
  | here => exact .here
  | outer hf _ ih => exact .outer ((hparent _).trans hf) ih

@[simp] theorem encloses_recode : (m.recode i code).Encloses j f ↔ m.Encloses j f :=
  ⟨fun h => h.congr fun f => (parent_recode f).symm, fun h => h.congr fun f => parent_recode f⟩

theorem Rooted.not_encloses_of_parent (hm : m.Rooted g) (hf : f < m.frames.size)
    (hparent : ∀ f < m.frames.size, (m'.frameAt f).parent = (m.frameAt f).parent)
    (h : ¬m.Encloses i f) : ¬m'.Encloses i f := by
  intro h'
  induction h' with
  | here => exact h .here
  | @outer f f' hf' _ ih =>
      rw [hparent f hf] at hf'
      exact ih (Nat.lt_trans (hm.parent_lt hf') hf) fun hi => h (.outer hf' hi)

theorem Encloses.le (h : m.Encloses i f) (hm : m.Rooted g) : i ≤ f := by
  induction h with
  | here => exact Nat.le_refl _
  | outer hf _ ih => exact Nat.le_trans ih (Nat.le_of_lt (hm.parent_lt hf))

theorem Encloses.eq_or_outer (h : m.Encloses i f) :
    i = f ∨ ∃ f', (m.frameAt f).parent = some f' ∧ m.Encloses i f' := by
  cases h with
  | here => exact .inl rfl
  | outer hparent h => exact .inr ⟨_, hparent, h⟩

theorem encloses_of_nearest? {p : Frame → Bool} {n : Nat} (h : m.nearest? p n f = some j)
    (hj : m.Encloses i j) : m.Encloses i f := by
  induction n generalizing f with
  | zero => cases h
  | succ n ih =>
      rw [nearest?] at h
      split at h
      · cases h
        exact hj
      · split at h
        · cases h
        · rename_i f' hparent
          exact .outer hparent (ih h)

section Outside

theorem nearest?_recode (h : ¬m.Encloses i f) (p : Frame → Bool) (n : Nat) :
    (m.recode i code).nearest? p n f = m.nearest? p n f := by
  induction n generalizing f with
  | zero => rfl
  | succ n ih =>
      have hne : f ≠ i := fun hf => h (hf ▸ .here)
      rw [nearest?, nearest?, frameAt_recode_of_ne hne]
      cases hparent : (m.frameAt f).parent with
      | none => rfl
      | some f' =>
          have hstep := ih fun hi => h (.outer hparent hi)
          simp only [hstep]

theorem ne_of_nearest? (h : ¬m.Encloses i f) {p : Frame → Bool} {n : Nat}
    (hj : m.nearest? p n f = some j) : j ≠ i := by
  rintro rfl
  exact h (encloses_of_nearest? hj .here)

theorem resolve?_recode (h : ¬m.Encloses i f) (x : String) :
    (m.recode i code).resolve? f x = m.resolve? f x := nearest?_recode h _ _

theorem bindingAt?_recode_of_ne (h : j ≠ i) (x : String) :
    (m.recode i code).bindingAt? j x = m.bindingAt? j x := by
  rw [bindingAt?, bindingAt?, frameAt_recode_of_ne h]

theorem lookup?_recode (h : ¬m.Encloses i f) (x : String) :
    (m.recode i code).lookup? f x = m.lookup? f x := by
  rw [lookup?, lookup?, resolve?_recode h]
  cases hj : m.resolve? f x with
  | none => rfl
  | some j =>
      simp only [Option.bind_eq_bind, Option.bind_some]
      rw [bindingAt?_recode_of_ne (ne_of_nearest? h hj)]

theorem readName_recode (h : ¬m.Encloses i f) (x : String) :
    (m.recode i code).readName f x = m.readName f x := by
  rw [readName, readName, lookup?_recode h]

theorem writableFrame_recode (h : ¬m.Encloses i f) (x : String) :
    (m.recode i code).writableFrame f x = m.writableFrame f x := by
  rw [writableFrame, writableFrame, resolve?_recode h, outermost, nearest?_recode h, outermost]
  cases hj : m.resolve? f x with
  | none => rfl
  | some j => simp only [bindingAt?_recode_of_ne (ne_of_nearest? h hj)]

theorem writableFrame_ne (hm : m.Rooted g) (hf : f < m.frames.size) (h : ¬m.Encloses i f)
    (hj : m.writableFrame f x = .ok j) : j ≠ i := by
  rw [writableFrame] at hj
  cases hresolve : m.resolve? f x with
  | none =>
      rw [hresolve] at hj
      cases hj
      rw [hm.outermost_eq hf]
      rintro rfl
      exact h (hm.global_encloses hf)
  | some k =>
      rw [hresolve] at hj
      simp only at hj
      split at hj
      · cases hj
      · cases hj
        exact ne_of_nearest? h hresolve

theorem declare_recode (h : f ≠ i) (x : String) (v : Value) (isMutable : Bool) :
    (m.recode i code).declare f x v isMutable = (m.declare f x v isMutable).recode i code :=
  m.modifyFrame_comm h _ _

theorem varFrame_recode (h : ¬m.Encloses i f) :
    (m.recode i code).varFrame f = m.varFrame f := by
  rw [varFrame, varFrame, nearest?_recode h]

theorem Rooted.varFrame_lt (hm : m.Rooted g) (hf : f < m.frames.size) :
    m.varFrame f < m.frames.size := by
  rw [varFrame]
  cases hj : m.nearest? (fun frame => frame.isBoundary || frame.parent.isNone) (chainFuel f) f with
  | none => exact hf
  | some j => exact Nat.lt_of_le_of_lt ((encloses_of_nearest? hj .here).le hm) hf

theorem varFrame_ne (h : ¬m.Encloses i f) : m.varFrame f ≠ i := by
  rw [varFrame]
  cases hj : m.nearest? (fun frame => frame.isBoundary || frame.parent.isNone) (chainFuel f) f with
  | none => exact fun hf => h (hf ▸ .here)
  | some j => exact ne_of_nearest? h hj

theorem declareVar_recode (h : ¬m.Encloses i f) (x : String) :
    (m.recode i code).declareVar f x = (m.declareVar f x).recode i code := by
  have hne := varFrame_ne h
  have hhere : (m.recode i code).isDeclaredHere (m.varFrame f) x =
      m.isDeclaredHere (m.varFrame f) x := by
    rw [isDeclaredHere, isDeclaredHere, frameAt_recode_of_ne hne]
  rw [declareVar, declareVar]
  simp only [varFrame_recode h, hhere, declare_recode hne]
  split <;> rfl

theorem newFrame_recode (h : i < m.frames.size) (parent : Option FrameRef) (isBoundary : Bool) :
    (m.recode i code).newFrame parent isBoundary =
      ((m.newFrame parent isBoundary).1, (m.newFrame parent isBoundary).2.recode i code) := by
  have hframes (p : Frame → Frame) (frame : Frame) :
      (m.frames.modify i p).push frame = (m.frames.push frame).modify i p := by
    apply Array.ext
    · simp
    · intro k hk _
      simp only [Array.getElem_push, Array.getElem_modify, Array.size_modify]
      by_cases hsize : k < m.frames.size
      · simp [hsize]
      · simp [hsize, show ¬i = k from fun hik => hsize (hik ▸ h)]
  simp only [newFrame, recode, modifyFrame, hframes, Array.size_modify]

end Outside

section Elsewhere

theorem displayFrom_recode (n : Nat) (path : List ArrayRef) (v : Value) :
    (m.recode i code).displayFrom n path v = m.displayFrom n path v := by
  induction n generalizing path v with
  | zero => rfl
  | succ n ih => cases v <;> simp only [displayFrom, ih] <;> rfl

theorem display_recode (v : Value) : (m.recode i code).display v = m.display v :=
  displayFrom_recode _ _ v

theorem toNumber_recode (v : Value) : (m.recode i code).toNumber v = m.toNumber v := by
  simp only [toNumber, display_recode]

theorem toPrimitive_recode (v : Value) : (m.recode i code).toPrimitive v = m.toPrimitive v := by
  simp only [toPrimitive, display_recode]

theorem binary_recode (op : BinaryOp) (v w : Value) :
    (m.recode i code).binary op v w = m.binary op v w := by
  simp only [binary, arithmetic, add, bitwise, inOrder, toWord, compareValues, looseEquals,
    looseEqualsPlain, toNumber_recode, toPrimitive_recode, display_recode]

theorem compound_recode (op : AssignOp) (old new : Value) :
    (m.recode i code).compound op old new = m.compound op old new := by
  simp only [compound, arithmetic, add, toNumber_recode, toPrimitive_recode, display_recode]

theorem unary_recode (op : UnaryOp) (v : Value) : (m.recode i code).unary op v = m.unary op v := by
  simp only [unary, toWord, toNumber_recode]

theorem getProperty_recode (v : Value) (key : String) :
    (m.recode i code).getProperty v key = m.getProperty v key := by
  cases v <;> rfl

theorem placeOf_recode (base : Value) (key : String) (v : Value) :
    (m.recode i code).placeOf base key v = m.placeOf base key v := by
  cases base with
  | array a =>
      simp only [placeOf, arrayPlace, toNumber_recode]
      rfl
  | _ => rfl

theorem write_recode (v : Value) (p : Place) :
    (m.recode i code).write v p = (m.write v p).recode i code := by
  cases p <;> rfl

theorem toValue_recode (e : Fault) :
    e.toValue (m.recode i code) = ((e.toValue m).1, (e.toValue m).2.recode i code) := by
  cases e <;> rfl

end Elsewhere

end Memory

end SmallScript
