import SmallScript.Memory.Scope
import Mathlib

namespace SmallScript.Memory

variable {m : Memory} {g f f' i : FrameRef} {x : String} {p : Frame → Bool}

structure Rooted (m : Memory) (g : FrameRef) : Prop where
  global_lt : g < m.frames.size
  parent_lt : ∀ {f f'}, (m.frameAt f).parent = some f' → f' < f
  parent_none : ∀ {f}, f < m.frames.size → (m.frameAt f).parent = none → f = g
  global_parent : (m.frameAt g).parent = none
  scope_lt : ∀ c ∈ m.closures, c.scope < m.frames.size

/-- The frame `g` is `f` or around it. -/
inductive Encloses (m : Memory) (g : FrameRef) : FrameRef → Prop where
  | here : Encloses m g g
  | outer {f f' : FrameRef} (hparent : (m.frameAt f).parent = some f')
      (h : Encloses m g f') : Encloses m g f

theorem isDeclaredHere_iff : m.isDeclaredHere f x = true ↔ ∃ b, m.bindingAt? f x = some b := by
  rw [isDeclaredHere, Table.has, Option.isSome_iff_exists]
  rfl

theorem isDeclaredHere_eq_false : m.isDeclaredHere f x = false ↔ m.bindingAt? f x = none := by
  rw [isDeclaredHere, Table.has, Option.isSome_eq_false_iff, Option.isNone_iff_eq_none]
  rfl

theorem frameAt_of_size_le (h : m.frames.size ≤ f) : m.frameAt f = ⟨[], none, true⟩ := by
  rw [frameAt, Array.getElem?_eq_none h]
  rfl

theorem bindingAt?_of_size_le (h : m.frames.size ≤ f) : m.bindingAt? f x = none := by
  rw [bindingAt?, frameAt_of_size_le h]
  rfl

theorem lt_size_of_bindingAt? {b : Binding} (h : m.bindingAt? f x = some b) :
    f < m.frames.size := by
  by_contra hf
  rw [bindingAt?_of_size_le (Nat.not_lt.mp hf)] at h
  cases h

theorem Rooted.exists_parent (h : m.Rooted g) (hf : f < m.frames.size) (hne : f ≠ g) :
    ∃ f', (m.frameAt f).parent = some f' :=
  Option.ne_none_iff_exists'.mp fun hnone => hne (h.parent_none hf hnone)

theorem nearest?_spec {n : Nat} (h : m.nearest? p n f = some i) : p (m.frameAt i) = true := by
  induction n generalizing f with
  | zero => cases h
  | succ n ih =>
      rw [nearest?] at h
      cases hp : p (m.frameAt f) with
      | true =>
          rw [hp, if_pos rfl] at h
          exact Option.some.inj h ▸ hp
      | false =>
          rw [hp, if_neg Bool.false_ne_true] at h
          cases hparent : (m.frameAt f).parent with
          | none =>
              rw [hparent] at h
              cases h
          | some f' =>
              rw [hparent] at h
              exact ih h

/-- Fuel beyond the reference of a frame makes no difference to a search from there. -/
theorem Rooted.nearest?_fuel (h : m.Rooted g) {n n' : Nat} (hn : f < n) (hn' : f < n') :
    m.nearest? p n f = m.nearest? p n' f := by
  induction n generalizing f n' with
  | zero => exact absurd hn (Nat.not_lt_zero f)
  | succ n ih =>
      obtain ⟨n', rfl⟩ := Nat.exists_eq_succ_of_ne_zero (Nat.ne_zero_of_lt hn')
      rw [nearest?, nearest?]
      cases hparent : (m.frameAt f).parent with
      | none => rfl
      | some f' =>
          have hlt := h.parent_lt hparent
          have hstep : m.nearest? p n f' = m.nearest? p n' f' :=
            ih (Nat.lt_of_lt_of_le hlt (Nat.le_of_lt_succ hn))
              (Nat.lt_of_lt_of_le hlt (Nat.le_of_lt_succ hn'))
          simp only [hstep]

theorem Rooted.nearest?_eq (h : m.Rooted g) (p : Frame → Bool) (f : FrameRef) :
    m.nearest? p (chainFuel f) f =
      if p (m.frameAt f) then some f
      else (m.frameAt f).parent.bind fun f' => m.nearest? p (chainFuel f') f' := by
  rw [chainFuel, nearest?]
  cases hparent : (m.frameAt f).parent with
  | none => rfl
  | some f' =>
      simp only [Option.bind_some]
      rw [h.nearest?_fuel (h.parent_lt hparent) (Nat.lt_succ_self f')]
      rfl

theorem Rooted.resolve?_eq (h : m.Rooted g) (f : FrameRef) (x : String) :
    m.resolve? f x =
      if m.isDeclaredHere f x then some f
      else (m.frameAt f).parent.bind fun f' => m.resolve? f' x :=
  h.nearest?_eq _ f

theorem resolve?_binds (h : m.resolve? f x = some i) : m.isDeclaredHere i x = true :=
  nearest?_spec h

theorem resolve?_lt (h : m.resolve? f x = some i) : i < m.frames.size := by
  obtain ⟨b, hb⟩ := isDeclaredHere_iff.mp (resolve?_binds h)
  exact lt_size_of_bindingAt? hb

theorem Rooted.outermost_eq (h : m.Rooted g) (hf : f < m.frames.size) : m.outermost f = g := by
  induction f using Nat.strong_induction_on with
  | _ f ih =>
    rw [outermost, h.nearest?_eq]
    cases hparent : (m.frameAt f).parent with
    | none => simpa [hparent] using h.parent_none hf hparent
    | some f' =>
        have hlt := h.parent_lt hparent
        have hstep := ih f' hlt (Nat.lt_trans hlt hf)
        rw [outermost] at hstep
        simp only [Option.isNone_some, Bool.false_eq_true, if_false, Option.bind_some]
        cases hnearest : m.nearest? (fun frame => frame.parent.isNone) (chainFuel f') f' with
        | none =>
            rw [hnearest] at hstep
            have hroot := h.global_parent
            simp only [Option.getD_none] at hstep ⊢
            rw [h.nearest?_eq, hstep, hroot] at hnearest
            simp at hnearest
        | some i =>
            rw [hnearest] at hstep
            simpa using hstep

theorem Rooted.global_encloses (h : m.Rooted g) (hf : f < m.frames.size) : m.Encloses g f := by
  induction f using Nat.strong_induction_on with
  | _ f ih =>
    by_cases hfg : f = g
    · exact hfg ▸ .here
    · obtain ⟨f', hparent⟩ := h.exists_parent hf hfg
      have hlt := h.parent_lt hparent
      exact .outer hparent (ih f' hlt (Nat.lt_trans hlt hf))

/-- A name is found from everywhere inside a frame that binds it. -/
theorem Rooted.resolve?_of_encloses (h : m.Rooted g) (hi : m.Encloses i f)
    (hx : m.isDeclaredHere i x = true) : ∃ j, m.resolve? f x = some j := by
  induction hi with
  | here => exact ⟨i, by rw [h.resolve?_eq, if_pos hx]⟩
  | @outer f f' hparent _ ih =>
      rw [h.resolve?_eq]
      cases m.isDeclaredHere f x with
      | true => exact ⟨f, rfl⟩
      | false => simpa [hparent] using ih

theorem Rooted.not_declaredHere_of_resolve? (h : m.Rooted g) (hi : m.Encloses i f)
    (hx : m.resolve? f x = none) : m.bindingAt? i x = none := by
  cases hb : m.bindingAt? i x with
  | none => rfl
  | some b =>
      obtain ⟨j, hj⟩ := h.resolve?_of_encloses hi (isDeclaredHere_iff.mpr ⟨b, hb⟩)
      rw [hx] at hj
      cases hj

theorem lookup?_isSome (h : m.resolve? f x = some i) : ∃ v, m.lookup? f x = some v := by
  obtain ⟨b, hb⟩ := isDeclaredHere_iff.mp (resolve?_binds h)
  exact ⟨b.value, by simp [lookup?, h, hb]⟩

end SmallScript.Memory
