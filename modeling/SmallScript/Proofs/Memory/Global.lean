import SmallScript.Proofs.Memory.Growth
import Mathlib

namespace SmallScript.Memory

variable {m : Memory} {f g i : FrameRef} {x : String} {b : Binding}

def constants : List String := ["undefined", "NaN", "Infinity"]

theorem frameAt_declareAll (hf : f < m.frames.size) (bs : List (String × Value))
    (isMutable : Bool) :
    (m.declareAll f bs isMutable).frames.size = m.frames.size ∧
      ∀ i, ((m.declareAll f bs isMutable).frameAt i).parent = (m.frameAt i).parent ∧
        ((m.declareAll f bs isMutable).frameAt i).isBoundary = (m.frameAt i).isBoundary := by
  induction bs generalizing m with
  | nil => exact ⟨rfl, fun i => ⟨rfl, rfl⟩⟩
  | cons entry bs ih =>
      obtain ⟨x, v⟩ := entry
      obtain ⟨hsize, hframe⟩ := ih (m := m.declare f x v isMutable) (by simpa using hf)
      rw [declareAll, List.foldl_cons, ← declareAll, hsize]
      refine ⟨by simp, fun i => ?_⟩
      rw [(hframe i).1, (hframe i).2]
      exact frameAt_declare hf isMutable i

theorem lt_size_declareAll (hf : f < m.frames.size) (bs : List (String × Value))
    (isMutable : Bool) : f < (m.declareAll f bs isMutable).frames.size := by
  rw [(frameAt_declareAll hf bs isMutable).1]
  exact hf

theorem Rooted.declareAll (hm : m.Rooted g) (hf : f < m.frames.size) (bs : List (String × Value))
    (isMutable : Bool) : (m.declareAll f bs isMutable).Rooted g := by
  obtain ⟨hsize, hframe⟩ := frameAt_declareAll hf bs isMutable
  exact hm.of_same hsize (fun i => (hframe i).1) (m.closures_declareAll f bs isMutable)

theorem bindingAt?_declareAll (hf : f < m.frames.size) {bs : List (String × Value)}
    {isMutable : Bool} (h : (m.declareAll f bs isMutable).bindingAt? i x = some b) :
    m.bindingAt? i x = some b ∨ b.isMutable = isMutable ∧ x ∈ bs.map Prod.fst := by
  induction bs generalizing m with
  | nil => exact .inl h
  | cons entry bs ih =>
      obtain ⟨y, v⟩ := entry
      rw [declareAll, List.foldl_cons, ← declareAll] at h
      rcases ih (by simpa using hf) h with h | ⟨hb, hx⟩
      · rw [bindingAt?_declare hf] at h
        split at h
        · rename_i hy
          cases h
          exact .inr ⟨rfl, hy.2 ▸ List.mem_cons_self ..⟩
        · exact .inl h
      · exact .inr ⟨hb, List.mem_cons_of_mem _ hx⟩

theorem frameAt_first (i : FrameRef) :
    (empty.newFrame none true).2.frameAt i = ⟨[], none, true⟩ := by
  rw [frameAt_newFrame]
  split
  · rfl
  · exact frameAt_of_size_le (Nat.zero_le i)

theorem rooted_first : (empty.newFrame none true).2.Rooted 0 := by
  refine ⟨by simp [newFrame, empty], ?_, ?_, ?_, ?_⟩
  · intro i j hij
    rw [frameAt_first] at hij
    cases hij
  · intro i hi _
    exact Nat.lt_one_iff.mp hi
  · rw [frameAt_first]
  · intro c hc
    exact absurd hc (Array.not_mem_empty c)

theorem rooted_newGlobal : empty.newGlobal.2.Rooted empty.newGlobal.1 :=
  (rooted_first.declareAll rooted_first.global_lt _ true).declareAll
    (lt_size_declareAll rooted_first.global_lt _ true) _ false

theorem isBoundary_newGlobal : (empty.newGlobal.2.frameAt empty.newGlobal.1).isBoundary = true := by
  have hlt := lt_size_declareAll rooted_first.global_lt
    (Builtin.all.map fun b => (b.name, .builtin b)) true
  refine ((frameAt_declareAll hlt _ false).2 0).2.trans ?_
  rw [((frameAt_declareAll rooted_first.global_lt _ true).2 0).2, frameAt_first]

theorem constant_newGlobal (h : empty.newGlobal.2.bindingAt? empty.newGlobal.1 x = some b)
    (hb : b.isMutable = false) : x ∈ constants := by
  have hlt := lt_size_declareAll rooted_first.global_lt
    (Builtin.all.map fun b => (b.name, .builtin b)) true
  rcases bindingAt?_declareAll hlt h with h | ⟨-, hx⟩
  · rcases bindingAt?_declareAll rooted_first.global_lt h with h | ⟨hmutable, -⟩
    · rw [bindingAt?, frameAt_first] at h
      cases h
    · rw [hmutable] at hb
      cases hb
  · exact hx

end SmallScript.Memory
