import SmallScript.Proofs.Memory.Chain
import SmallScript.Memory.Property
import Mathlib

namespace SmallScript

/-- What may become of a binding, or of a name without one, in a frame. -/
inductive Binding.Change (isGlobal : Prop) (declares : Bool → Prop) :
    Option Binding → Option Binding → Prop where
  | same (b : Option Binding) : Change isGlobal declares b b
  | written (v w : Value) : Change isGlobal declares (some ⟨v, true⟩) (some ⟨w, true⟩)
  | gained (v : Value) (h : isGlobal) : Change isGlobal declares none (some ⟨v, true⟩)
  | declared (b : Option Binding) (v : Value) (isMutable : Bool) (h : declares isMutable) :
      Change isGlobal declares b (some ⟨v, isMutable⟩)

/-- The declarations that a run may make: in which frame, of which name, and whether the binding is
mutable. -/
abbrev Declares := FrameRef → String → Bool → Prop

namespace Declares

def nowhere : Declares := fun _ _ _ => False

def inFrame (f : FrameRef) (xs : List (String × Bool)) : Declares :=
  fun i x isMutable => i = f ∧ (x, isMutable) ∈ xs

def since (n : Nat) : Declares := fun i _ _ => n ≤ i

end Declares

namespace Binding.Change

variable {G : Prop} {d d' : Bool → Prop} {a b c : Option Binding}

theorem trans (hab : Change G d a b) (hbc : Change G d b c) : Change G d a c := by
  cases hbc with
  | same => exact hab
  | declared _ v isMutable h => exact .declared a v isMutable h
  | gained v h =>
      cases hab
      exact .gained v h
  | written v w =>
      cases hab with
      | same => exact .written v w
      | written u _ => exact .written u w
      | gained _ h => exact .gained w h
      | declared _ _ _ h => exact .declared a w true h

theorem mono (h : Change G d a b) (hd : ∀ isMutable, d isMutable → d' isMutable) :
    Change G d' a b := by
  cases h with
  | same => exact .same a
  | written v w => exact .written v w
  | gained v h => exact .gained v h
  | declared _ v isMutable h => exact .declared a v isMutable (hd isMutable h)

theorem isSome (h : Change G d a b) (ha : a.isSome = true) : b.isSome = true := by
  cases h with
  | same => exact ha
  | _ => rfl

end Binding.Change

namespace Memory

open Declares

structure Grows (declares : Declares) (m m' : Memory) : Prop where
  size_le : m.frames.size ≤ m'.frames.size
  parent : ∀ i < m.frames.size, (m'.frameAt i).parent = (m.frameAt i).parent
  isBoundary : ∀ i < m.frames.size, (m'.frameAt i).isBoundary = (m.frameAt i).isBoundary
  change : ∀ i < m.frames.size, ∀ x,
    Binding.Change ((m.frameAt i).parent = none) (declares i x)
      (m.bindingAt? i x) (m'.bindingAt? i x)

variable {m m' m'' : Memory} {d d' : Declares} {f f' g i : FrameRef} {x y : String} {v : Value}

theorem Grows.of_frames_eq (h : m'.frames = m.frames) : m.Grows d m' where
  size_le := by rw [h]
  parent i _ := by rw [frameAt, frameAt, h]
  isBoundary i _ := by rw [frameAt, frameAt, h]
  change i _ x := by
    rw [bindingAt?, bindingAt?, frameAt, frameAt, h]
    exact .same _

theorem Grows.refl (d : Declares) (m : Memory) : m.Grows d m := .of_frames_eq rfl

theorem Grows.trans (h : m.Grows d m') (h' : m'.Grows d m'') : m.Grows d m'' where
  size_le := Nat.le_trans h.size_le h'.size_le
  parent i hi := (h'.parent i (Nat.lt_of_lt_of_le hi h.size_le)).trans (h.parent i hi)
  isBoundary i hi := (h'.isBoundary i (Nat.lt_of_lt_of_le hi h.size_le)).trans (h.isBoundary i hi)
  change i hi x := by
    have hchange := h'.change i (Nat.lt_of_lt_of_le hi h.size_le) x
    rw [h.parent i hi] at hchange
    exact (h.change i hi x).trans hchange

theorem Grows.mono (h : m.Grows d m')
    (hd : ∀ i < m.frames.size, ∀ x isMutable, d i x isMutable → d' i x isMutable) :
    m.Grows d' m' where
  size_le := h.size_le
  parent := h.parent
  isBoundary := h.isBoundary
  change i hi x := (h.change i hi x).mono (hd i hi x)

theorem Grows.nowhere_of_since (h : m.Grows (since m.frames.size) m') : m.Grows nowhere m' :=
  h.mono fun _ hi _ _ hle => Nat.not_le_of_lt hi hle

theorem Grows.of_nowhere (h : m.Grows nowhere m') : m.Grows d m' :=
  h.mono fun _ _ _ _ hd => hd.elim

theorem Grows.isDeclaredHere (h : m.Grows d m') (hx : m.isDeclaredHere i x = true) :
    m'.isDeclaredHere i x = true := by
  obtain ⟨b, hb⟩ := isDeclaredHere_iff.mp hx
  have hchange := h.change i (lt_size_of_bindingAt? hb) x
  exact hchange.isSome (Option.isSome_iff_exists.mpr ⟨b, hb⟩)

theorem Grows.unbound (h : m.Grows nowhere m') (hi : i < m.frames.size)
    (hparent : (m.frameAt i).parent ≠ none) (hx : m.isDeclaredHere i x = false) :
    m'.isDeclaredHere i x = false := by
  have hchange := h.change i hi x
  rw [isDeclaredHere_eq_false] at hx ⊢
  rw [hx] at hchange
  generalize m'.bindingAt? i x = b at hchange
  cases hchange with
  | same => rfl
  | gained _ hglobal => exact absurd hglobal hparent
  | declared _ _ _ hd => exact hd.elim

/-- A name that is bound keeps its place, whatever was evaluated. -/
theorem Grows.resolve? (h : m.Grows nowhere m') (hm : m.Rooted g) (hm' : m'.Rooted g)
    (hf : f < m.frames.size) (hx : m.resolve? f x = some i) : m'.resolve? f x = some i := by
  induction f using Nat.strong_induction_on with
  | _ f ih =>
    rw [hm.resolve?_eq] at hx
    rw [hm'.resolve?_eq]
    cases hhere : m.isDeclaredHere f x with
    | true =>
        rw [h.isDeclaredHere hhere]
        simpa [hhere] using hx
    | false =>
        simp only [hhere, Bool.false_eq_true, if_false] at hx
        obtain ⟨f', hparent, hx⟩ := Option.bind_eq_some_iff.mp hx
        have hlt := hm.parent_lt hparent
        rw [h.unbound hf (by simp [hparent]) hhere, h.parent f hf, hparent]
        exact ih f' hlt (Nat.lt_trans hlt hf) hx

theorem Grows.resolve?_back (h : m.Grows nowhere m') (hm : m.Rooted g) (hm' : m'.Rooted g)
    (hf : f < m.frames.size) (hx : m'.resolve? f x = some i) :
    m.resolve? f x = some i ∨ m.resolve? f x = none ∧ i = g := by
  induction f using Nat.strong_induction_on with
  | _ f ih =>
    rw [hm'.resolve?_eq, h.parent f hf] at hx
    rw [hm.resolve?_eq]
    cases hparent : (m.frameAt f).parent with
    | none =>
        cases hhere : m.isDeclaredHere f x with
        | true =>
            rw [h.isDeclaredHere hhere, if_pos rfl] at hx
            exact .inl hx
        | false =>
            rw [hparent, hm.parent_none hf hparent] at hx
            split at hx
            · cases hx
              exact .inr ⟨rfl, rfl⟩
            · cases hx
    | some f' =>
        cases hhere : m.isDeclaredHere f x with
        | true =>
            rw [h.isDeclaredHere hhere, if_pos rfl] at hx
            exact .inl hx
        | false =>
            have hlt := hm.parent_lt hparent
            rw [h.unbound hf (by simp [hparent]) hhere, hparent] at hx
            exact ih f' hlt (Nat.lt_trans hlt hf) hx

theorem Grows.resolve?_getD (h : m.Grows nowhere m') (hm : m.Rooted g) (hm' : m'.Rooted g)
    (hf : f < m.frames.size) : (m'.resolve? f x).getD g = (m.resolve? f x).getD g := by
  cases hx' : m'.resolve? f x with
  | none =>
      cases hx : m.resolve? f x with
      | none => rfl
      | some i =>
          rw [h.resolve? hm hm' hf hx] at hx'
          cases hx'
  | some i =>
      rcases h.resolve?_back hm hm' hf hx' with hx | ⟨hx, rfl⟩
      · rw [hx]
      · rw [hx]
        rfl

section Primitives

theorem bindingAt?_declare (hf : f < m.frames.size) (isMutable : Bool) :
    (m.declare f x v isMutable).bindingAt? i y =
      if i = f ∧ y = x then some ⟨v, isMutable⟩ else m.bindingAt? i y := by
  rw [bindingAt?, declare, frameAt_modifyFrame m hf]
  by_cases hi : f = i
  · subst i
    rw [if_pos rfl, Table.get?_set]
    by_cases hy : x = y
    · simp [hy]
    · simp [hy, Ne.symm hy, bindingAt?]
  · rw [if_neg hi, if_neg fun h => hi h.1.symm]
    rfl

@[simp] theorem size_declare (m : Memory) (f : FrameRef) (x : String) (v : Value)
    (isMutable : Bool) : (m.declare f x v isMutable).frames.size = m.frames.size := by
  simp [declare, modifyFrame]

theorem frameAt_declare (hf : f < m.frames.size) (isMutable : Bool) (i : FrameRef) :
    ((m.declare f x v isMutable).frameAt i).parent = (m.frameAt i).parent ∧
      ((m.declare f x v isMutable).frameAt i).isBoundary = (m.frameAt i).isBoundary := by
  rw [declare, frameAt_modifyFrame m hf]
  by_cases hi : f = i
  · subst i
    simp
  · simp [hi]

theorem grows_declare (hf : f < m.frames.size) {isMutable : Bool} (hd : d f x isMutable) :
    m.Grows d (m.declare f x v isMutable) where
  size_le := by simp
  parent i _ := (frameAt_declare hf isMutable i).1
  isBoundary i _ := (frameAt_declare hf isMutable i).2
  change i _ y := by
    rw [bindingAt?_declare hf]
    split
    · rename_i h
      obtain ⟨rfl, rfl⟩ := h
      exact .declared _ v isMutable hd
    · exact .same _

/-- A write goes to a mutable binding, or makes one in the global frame. -/
theorem Rooted.change_write (hm : m.Rooted g) (hf : f < m.frames.size)
    (hx : m.writableFrame f x = .ok i) :
    i < m.frames.size ∧ Binding.Change ((m.frameAt i).parent = none) (d i x) (m.bindingAt? i x)
      (some ⟨v, true⟩) := by
  rw [writableFrame] at hx
  split at hx
  · rename_i hnone
    cases hx
    rw [hm.outermost_eq hf, hm.not_declaredHere_of_resolve? (hm.global_encloses hf) hnone]
    exact ⟨hm.global_lt, .gained v hm.global_parent⟩
  · rename_i j hresolve
    obtain ⟨b, hb⟩ := isDeclaredHere_iff.mp (resolve?_binds hresolve)
    obtain ⟨w, isMutable⟩ := b
    rw [hb] at hx
    cases isMutable with
    | false => cases hx
    | true =>
        cases hx
        rw [hb]
        exact ⟨resolve?_lt hresolve, .written w v⟩

theorem resolve?_none_of_writableFrame (hx : m.writableFrame f x = .ok i)
    (hnone : m.bindingAt? i x = none) : m.resolve? f x = none := by
  rw [writableFrame] at hx
  split at hx
  · rename_i hresolve
    exact hresolve
  · rename_i j hresolve
    obtain ⟨b, hb⟩ := isDeclaredHere_iff.mp (resolve?_binds hresolve)
    obtain ⟨w, isMutable⟩ := b
    rw [hb] at hx
    cases isMutable with
    | false => cases hx
    | true =>
        cases hx
        rw [hb] at hnone
        cases hnone

theorem grows_write (hm : m.Rooted g) (hf : f < m.frames.size)
    (hx : m.writableFrame f x = .ok i) : m.Grows d (m.declare i x v true) := by
  obtain ⟨hi, hchange⟩ := hm.change_write (d := d) (v := v) hf hx
  refine ⟨by simp, fun j _ => (frameAt_declare hi true j).1,
    fun j _ => (frameAt_declare hi true j).2, ?_⟩
  intro j _ y
  rw [bindingAt?_declare hi]
  split
  · rename_i h
    obtain ⟨rfl, rfl⟩ := h
    exact hchange
  · exact .same _

@[simp] theorem size_newFrame (m : Memory) (parent : Option FrameRef) (isBoundary : Bool) :
    (m.newFrame parent isBoundary).2.frames.size = m.frames.size + 1 := by
  simp [newFrame]

theorem grows_newFrame (m : Memory) (d : Declares) (parent : Option FrameRef) (isBoundary : Bool) :
    m.Grows d (m.newFrame parent isBoundary).2 := by
  have hframe (i : FrameRef) (hi : i < m.frames.size) :
      (m.newFrame parent isBoundary).2.frameAt i = m.frameAt i := by
    rw [frameAt_newFrame, if_neg (Nat.ne_of_lt hi)]
  refine ⟨by simp, fun i hi => by rw [hframe i hi], fun i hi => by rw [hframe i hi], ?_⟩
  intro i hi x
  rw [bindingAt?, bindingAt?, hframe i hi]
  exact .same _

theorem frames_write (m : Memory) (v : Value) (p : Place) : (m.write v p).frames = m.frames := by
  cases p <;> rfl

theorem frames_toValue (e : Fault) (m : Memory) : (e.toValue m).2.frames = m.frames := by
  cases e <;> rfl

end Primitives

section Rooted

theorem Rooted.of_same (hm : m.Rooted g) (hsize : m'.frames.size = m.frames.size)
    (hparent : ∀ i, (m'.frameAt i).parent = (m.frameAt i).parent)
    (hclosures : m'.closures = m.closures) : m'.Rooted g where
  global_lt := hsize ▸ hm.global_lt
  parent_lt := fun h => hm.parent_lt ((hparent _).symm.trans h)
  parent_none := fun hi h => hm.parent_none (hsize ▸ hi) ((hparent _).symm.trans h)
  global_parent := (hparent g).trans hm.global_parent
  scope_lt := by
    rw [hclosures, hsize]
    exact hm.scope_lt

theorem Rooted.of_frames_eq (hm : m.Rooted g) (hframes : m'.frames = m.frames)
    (hclosures : m'.closures = m.closures) : m'.Rooted g :=
  hm.of_same (by rw [hframes]) (fun i => by rw [frameAt, frameAt, hframes]) hclosures

theorem Rooted.declare (hm : m.Rooted g) (hf : f < m.frames.size) (isMutable : Bool) :
    (m.declare f x v isMutable).Rooted g :=
  hm.of_same (by simp) (fun i => (frameAt_declare hf isMutable i).1) rfl

theorem Rooted.newFrame (hm : m.Rooted g) (hf : f < m.frames.size) (isBoundary : Bool) :
    (m.newFrame (some f) isBoundary).2.Rooted g := by
  refine ⟨by simpa using Nat.lt_succ_of_lt hm.global_lt, ?_, ?_, ?_, ?_⟩
  · intro i j hij
    rw [frameAt_newFrame] at hij
    split at hij
    · rename_i hi
      cases hij
      exact hi ▸ hf
    · exact hm.parent_lt hij
  · intro i hi hnone
    rw [frameAt_newFrame] at hnone
    split at hnone
    · cases hnone
    · rename_i hne
      rw [size_newFrame] at hi
      exact hm.parent_none (Nat.lt_of_le_of_ne (Nat.le_of_lt_succ hi) hne) hnone
  · rw [frameAt_newFrame, if_neg (Nat.ne_of_lt hm.global_lt)]
    exact hm.global_parent
  · intro c hc
    rw [size_newFrame]
    exact Nat.lt_succ_of_lt (hm.scope_lt c hc)

theorem Rooted.newClosure (hm : m.Rooted g) (definition : Function) (hf : f < m.frames.size) :
    (m.newClosure definition f).2.Rooted g := by
  refine ⟨hm.global_lt, hm.parent_lt, hm.parent_none, hm.global_parent, ?_⟩
  intro c hc
  rcases Array.mem_push.mp hc with hc | rfl
  · exact hm.scope_lt c hc
  · exact hf

theorem Rooted.closureAt_scope_lt (hm : m.Rooted g) (c : ClosureRef) :
    (m.closureAt c).scope < m.frames.size := by
  rw [closureAt]
  cases hc : m.closures[c]? with
  | none => exact Nat.zero_lt_of_lt hm.global_lt
  | some closure => exact hm.scope_lt _ (Array.mem_of_getElem? hc)

end Rooted

end Memory

end SmallScript
