import SmallScript.Memory.Convert
import SmallScript.Proofs.Memory.Rendering
import Mathlib

namespace SmallScript

/-- The kinds of values. They are finer than the names that `typeof` gives. -/
inductive Kind where
  | undefined
  | null
  | boolean
  | number
  | string
  | array
  | object
  | function
  deriving DecidableEq

namespace Kind

def nullish : List Kind := [undefined, null]

/-- A reference is compared with values of these kinds by its text. -/
def plain : List Kind := [number, string]

def references : List Kind := [array, object, function]

end Kind

namespace Value

variable {v w : Value}

def kind : Value → Kind
  | undefined => .undefined
  | null => .null
  | bool _ => .boolean
  | number _ => .number
  | string _ => .string
  | array _ => .array
  | object _ => .object
  | builtin _ | closure _ => .function

def ofBool (b : Bool) : Value := .number (if b then 1 else 0)

theorem isNullish_eq (v : Value) : v.isNullish = decide (v.kind ∈ Kind.nullish) := by
  cases v <;> rfl

theorem kind_cases (v : Value) : v.kind ∈ Kind.nullish ∨ v.kind = .boolean ∨
    v.kind ∈ Kind.plain ∨ v.kind ∈ Kind.references := by
  cases v <;> simp [kind, Kind.nullish, Kind.plain, Kind.references]

theorem exists_bool (h : v.kind = .boolean) : ∃ b, v = .bool b := by
  cases v <;> first | exact ⟨_, rfl⟩ | cases h

theorem ofBool_mem_plain (b : Bool) : (ofBool b).kind ∈ Kind.plain := by
  simp [ofBool, kind, Kind.plain]

theorem string_mem_plain (s : String) : (string s).kind ∈ Kind.plain := by
  simp [kind, Kind.plain]

theorem strictEquals_of_kind_ne (h : v.kind ≠ w.kind) : v.strictEquals w = false := by
  cases v <;> cases w <;> first | rfl | exact absurd rfl h

theorem strictEquals_of_nullish (hv : v.kind ∈ Kind.nullish) (h : v.kind = w.kind) :
    v.strictEquals w = true := by
  cases v <;> simp [kind, Kind.nullish] at hv <;> cases w <;> first | rfl | cases h

end Value

namespace Memory

variable {m : Memory} {v w : Value} {r : Bool}

/-- String conversion of the value comes to an end. -/
def HasText (m : Memory) (v : Value) : Prop := ∃ t, m.Renders m.CutsInside .display [] v t

/-- `v == w` comes to the answer `r`. With `undefined` or `null` on one side nothing is converted;
otherwise booleans are converted before references are, and the left one of two booleans first. -/
inductive LooselyEquals (m : Memory) : Value → Value → Bool → Prop
  | undefined_null : LooselyEquals m .undefined .null true
  | null_undefined : LooselyEquals m .null .undefined true
  | nullish {v w : Value} (hnullish : v.kind ∈ Kind.nullish ∨ w.kind ∈ Kind.nullish)
      (hsame : v.kind ∈ Kind.nullish → w.kind ∈ Kind.nullish → v.kind = w.kind) :
      LooselyEquals m v w (v.strictEquals w)
  | number_string (x : Float) (s : String) :
      LooselyEquals m (.number x) (.string s) (x == Number.Reading.ofString s)
  | string_number (s : String) (y : Float) :
      LooselyEquals m (.string s) (.number y) (Number.Reading.ofString s == y)
  | boolean_left {b r : Bool} {w : Value} (hw : w.kind ∉ Kind.nullish)
      (h : LooselyEquals m (.ofBool b) w r) : LooselyEquals m (.bool b) w r
  | boolean_right {v : Value} {b r : Bool} (hv : v.kind ∉ .boolean :: Kind.nullish)
      (h : LooselyEquals m v (.ofBool b) r) : LooselyEquals m v (.bool b) r
  | reference_left {v w : Value} {t : String} {r : Bool} (hv : v.kind ∈ Kind.references)
      (hw : w.kind ∈ Kind.plain) (ht : m.Renders m.CutsInside .display [] v t)
      (h : LooselyEquals m (.string t) w r) : LooselyEquals m v w r
  | reference_right {v w : Value} {t : String} {r : Bool} (hv : v.kind ∈ Kind.plain)
      (hw : w.kind ∈ Kind.references) (ht : m.Renders m.CutsInside .display [] w t)
      (h : LooselyEquals m v (.string t) r) : LooselyEquals m v w r
  | plain {v w : Value} (hv : v.kind ∈ Kind.plain) (hw : v.kind = w.kind) :
      LooselyEquals m v w (v.strictEquals w)
  | references {v w : Value} (hv : v.kind ∈ Kind.references) (hw : w.kind ∈ Kind.references) :
      LooselyEquals m v w (v.strictEquals w)

section Answer

theorem looseEqualsPlain_comm (m : Memory) (v w : Value) :
    m.looseEqualsPlain v w = m.looseEqualsPlain w v := by
  cases v <;> cases w <;> simp only [looseEqualsPlain, Value.strictEquals, BEq.comm]

theorem looseEquals_symm (m : Memory) (v w : Value) : m.looseEquals v w = m.looseEquals w v := by
  rw [looseEquals, looseEquals, Bool.or_comm, Bool.and_comm, looseEqualsPlain_comm]

theorem looseEquals_bool (m : Memory) (b : Bool) (w : Value) :
    m.looseEquals (.bool b) w = m.looseEquals (.ofBool b) w := rfl

theorem looseEquals_of_nullish (h : v.kind ∈ Kind.nullish ∨ w.kind ∈ Kind.nullish) :
    m.looseEquals v w = decide (v.kind ∈ Kind.nullish ∧ w.kind ∈ Kind.nullish) := by
  rw [looseEquals, Value.isNullish_eq, Value.isNullish_eq, ← Bool.decide_or, ← Bool.decide_and,
    if_pos (decide_eq_true h)]

theorem looseEquals_of_not_mem (hv : v.kind ∉ .boolean :: Kind.nullish)
    (hw : w.kind ∉ .boolean :: Kind.nullish) : m.looseEquals v w = m.looseEqualsPlain v w := by
  have hcount {u : Value} (hu : u.kind ∉ .boolean :: Kind.nullish) : countBool u = u := by
    cases u with
    | bool b => exact absurd (List.mem_cons_self ..) hu
    | _ => rfl
  rw [looseEquals, hcount hv, hcount hw]
  simp only [List.mem_cons, not_or] at hv hw
  simp [Value.isNullish_eq, hv, hw]

theorem not_mem_of_plain (h : v.kind ∈ Kind.plain ∨ v.kind ∈ Kind.references) :
    v.kind ∉ .boolean :: Kind.nullish := by
  cases v <;> simp_all [Value.kind, Kind.nullish, Kind.plain, Kind.references]

theorem looseEquals_references (hv : v.kind ∈ Kind.references) (hw : w.kind ∈ Kind.references) :
    m.looseEquals v w = v.strictEquals w := by
  rw [looseEquals_of_not_mem (not_mem_of_plain (.inr hv)) (not_mem_of_plain (.inr hw))]
  cases v <;> simp [Value.kind, Kind.references] at hv <;> cases w <;>
    first | rfl | simp [Value.kind, Kind.references] at hw

theorem looseEquals_plain (hv : v.kind ∈ Kind.plain) (hw : v.kind = w.kind) :
    m.looseEquals v w = v.strictEquals w := by
  cases v <;> simp [Value.kind, Kind.plain] at hv <;> cases w <;> first | rfl | cases hw

/-- Values of one kind are compared as they are, booleans as the numbers that they count as. -/
theorem looseEquals_of_kind_eq (h : v.kind = w.kind) : m.looseEquals v w = v.strictEquals w := by
  rcases v.kind_cases with hv | hv | hv | hv
  · rw [looseEquals_of_nullish (.inl hv), Value.strictEquals_of_nullish hv h, ← h]
    simpa using hv
  · obtain ⟨a, rfl⟩ := Value.exists_bool hv
    obtain ⟨b, rfl⟩ := Value.exists_bool (h ▸ hv)
    have hnumber : ∀ a b : Bool,
        ((if a then 1 else 0 : Float) == if b then 1 else 0) = (a == b) := by decide
    exact hnumber a b
  · exact looseEquals_plain hv h
  · exact looseEquals_references hv (h ▸ hv)

theorem looseEquals_display (hv : v.kind ∈ Kind.references) (hw : w.kind ∈ Kind.plain) :
    m.looseEquals v w = m.looseEquals (.string (m.display v)) w := by
  have hdisplay (s : String) : m.display (.string s) = s := by
    obtain ⟨k, hk⟩ := m.exists_displayFuel
    rw [display, hk, displayFrom]
  rw [looseEquals_of_not_mem (not_mem_of_plain (.inr hv)) (not_mem_of_plain (.inl hw)),
    looseEquals_of_not_mem (not_mem_of_plain (.inl (Value.string_mem_plain _)))
      (not_mem_of_plain (.inl hw))]
  cases w <;> simp [Value.kind, Kind.plain] at hw <;> cases v <;>
    simp [Value.kind, Kind.references] at hv <;> simp only [looseEqualsPlain, hdisplay]

end Answer

theorem LooselyEquals.eq (h : m.LooselyEquals v w r) : r = m.looseEquals v w := by
  induction h with
  | undefined_null | null_undefined => rfl
  | @nullish v w hnullish hsame =>
      rw [looseEquals_of_nullish hnullish]
      by_cases h : v.kind = w.kind
      · rw [← h, or_self_iff] at hnullish
        rw [Value.strictEquals_of_nullish hnullish h, ← h]
        simpa using hnullish
      · rw [Value.strictEquals_of_kind_ne h]
        simpa using fun hv hw => h (hsame hv hw)
  | number_string | string_number => rfl
  | boolean_left _ _ ih => rwa [looseEquals_bool]
  | boolean_right _ _ ih => rwa [looseEquals_symm, looseEquals_bool, looseEquals_symm]
  | reference_left hv hw ht _ ih => rwa [looseEquals_display hv hw, display_of_renders ht]
  | reference_right hv hw ht _ ih =>
      rwa [looseEquals_symm, looseEquals_display hw hv, display_of_renders ht, looseEquals_symm]
  | plain hv hw => exact (looseEquals_plain hv hw).symm
  | references hv hw => exact (looseEquals_references hv hw).symm

section Ends

theorem exists_looselyEquals_plain (hv : v.kind ∈ Kind.plain) (hw : w.kind ∈ Kind.plain) :
    ∃ r, m.LooselyEquals v w r := by
  by_cases h : v.kind = w.kind
  · exact ⟨_, .plain hv h⟩
  · cases v <;> simp [Value.kind, Kind.plain] at hv <;> cases w <;>
      simp [Value.kind, Kind.plain] at hw h
    · exact ⟨_, .number_string ..⟩
    · exact ⟨_, .string_number ..⟩

/-- Where no boolean is left, one text at most is needed. -/
theorem exists_looselyEquals_of_not_mem (hv : v.kind ∈ Kind.references → m.HasText v)
    (hw : w.kind ∈ Kind.references → m.HasText w) (hv' : v.kind ∉ .boolean :: Kind.nullish)
    (hw' : w.kind ∉ .boolean :: Kind.nullish) : ∃ r, m.LooselyEquals v w r := by
  have hcases {u : Value} (hu : u.kind ∉ .boolean :: Kind.nullish) :
      u.kind ∈ Kind.plain ∨ u.kind ∈ Kind.references := by
    simp only [List.mem_cons, not_or] at hu
    rcases u.kind_cases with h | h | h
    · exact (hu.2 h).elim
    · exact (hu.1 h).elim
    · exact h
  rcases hcases hv' with hplain | href <;> rcases hcases hw' with hplain' | href'
  · exact exists_looselyEquals_plain hplain hplain'
  · obtain ⟨t, ht⟩ := hw href'
    obtain ⟨r, hr⟩ := exists_looselyEquals_plain (m := m) hplain
      (Value.string_mem_plain t)
    exact ⟨r, .reference_right hplain href' ht hr⟩
  · obtain ⟨t, ht⟩ := hv href
    obtain ⟨r, hr⟩ := exists_looselyEquals_plain (m := m) (Value.string_mem_plain t)
      hplain'
    exact ⟨r, .reference_left href hplain' ht hr⟩
  · exact ⟨_, .references href href'⟩

theorem exists_looselyEquals_boolean_right (hv : v.kind ∈ Kind.references → m.HasText v)
    (hw : w.kind ∈ Kind.references → m.HasText w) (hv' : v.kind ∉ .boolean :: Kind.nullish)
    (hw' : w.kind ∉ Kind.nullish) : ∃ r, m.LooselyEquals v w r := by
  by_cases hbool : w.kind = .boolean
  · obtain ⟨b, rfl⟩ := Value.exists_bool hbool
    obtain ⟨r, hr⟩ := exists_looselyEquals_of_not_mem (m := m) (w := .ofBool b) hv
      (by simp [Value.ofBool, Value.kind, Kind.references]) hv'
      (not_mem_of_plain (.inl (Value.ofBool_mem_plain b)))
    exact ⟨r, .boolean_right hv' hr⟩
  · exact exists_looselyEquals_of_not_mem hv hw hv' (by simp [hbool, hw'])

/-- Of two values that have a text it is always settled whether they are loosely equal. -/
theorem exists_looselyEquals (hv : m.HasText v) (hw : m.HasText w) :
    ∃ r, m.LooselyEquals v w r := by
  by_cases hnullish : v.kind ∈ Kind.nullish ∨ w.kind ∈ Kind.nullish
  · by_cases hsame : v.kind ∈ Kind.nullish → w.kind ∈ Kind.nullish → v.kind = w.kind
    · exact ⟨_, .nullish hnullish hsame⟩
    · cases v <;> cases w <;> simp [Value.kind, Kind.nullish] at hsame
      · exact ⟨_, .undefined_null⟩
      · exact ⟨_, .null_undefined⟩
  · rw [not_or] at hnullish
    by_cases hbool : v.kind = .boolean
    · obtain ⟨b, rfl⟩ := Value.exists_bool hbool
      obtain ⟨r, hr⟩ := exists_looselyEquals_boolean_right (m := m) (v := .ofBool b)
        (by simp [Value.ofBool, Value.kind, Kind.references]) (fun _ => hw)
        (not_mem_of_plain (.inl (Value.ofBool_mem_plain b))) hnullish.2
      exact ⟨r, .boolean_left hnullish.2 hr⟩
    · exact exists_looselyEquals_boolean_right (fun _ => hv) (fun _ => hw)
        (by simp [hbool, hnullish.1]) hnullish.2

end Ends

/-- Whether two values that have a text are loosely equal is settled by finitely many rules. The
answer is the same with the operands exchanged and, for values of one kind, that of `===`;
`undefined` and `null` equal each other and nothing else, and a boolean counts as its number. -/
theorem looseEquals_laws (hv : m.HasText v) (hw : m.HasText w) :
    (∀ r, m.LooselyEquals v w r ↔ r = m.looseEquals v w) ∧
      m.looseEquals v w = m.looseEquals w v ∧
      (v.kind = w.kind → m.looseEquals v w = v.strictEquals w) ∧
      (v.kind ∈ Kind.nullish → (m.looseEquals v w = true ↔ w.kind ∈ Kind.nullish)) ∧
      (w.kind ∈ Kind.nullish → (m.looseEquals v w = true ↔ v.kind ∈ Kind.nullish)) ∧
      (∀ b, v = .bool b → m.looseEquals v w = m.looseEquals (.ofBool b) w) ∧
      ∀ b, w = .bool b → m.looseEquals v w = m.looseEquals v (.ofBool b) := by
  obtain ⟨r, hr⟩ := exists_looselyEquals hv hw
  refine ⟨fun r' => ⟨LooselyEquals.eq, fun h => ?_⟩, looseEquals_symm m v w,
    looseEquals_of_kind_eq, fun h => ?_, fun h => ?_, ?_, ?_⟩
  · rwa [h, ← hr.eq]
  · simp [looseEquals_of_nullish (.inl h), h]
  · simp [looseEquals_of_nullish (.inr h), h]
  · rintro b rfl
    exact looseEquals_bool m b w
  · rintro b rfl
    rw [looseEquals_symm, looseEquals_bool, looseEquals_symm]

section Circular

def circularMemory : Memory where
  arrays := #[#[.array 0]]
  objects := #[⟨.error, [("name", .object 0)]⟩]
  closures := #[]
  frames := #[]

/-- The array has a text, and the object, which has none, does not matter. -/
theorem looseEquals_laws_circular :
    circularMemory.HasText (.bool false) ∧ circularMemory.HasText (.array 0) ∧
      ¬circularMemory.HasText (.object 0) ∧
      circularMemory.LooselyEquals (.bool false) (.array 0) true ∧
      circularMemory.looseEquals (.array 0) (.bool false) = true := by
  have hbool : circularMemory.HasText (.bool false) :=
    ⟨_, .full (fun _ => "") And.right nofun nofun⟩
  have harray : circularMemory.HasText (.array 0) := by
    refine ⟨_, .full (fun _ => "") (fun h => by cases h.1) nofun fun w hw => ?_⟩
    obtain rfl : w = .array 0 := by
      simpa [parts, arrayAt, circularMemory, Value.isNullish] using hw
    exact .cut ⟨List.mem_cons_self .., trivial⟩ nofun
  have hobject : ¬circularMemory.HasText (.object 0) := by
    rintro ⟨t, ht⟩
    exact ht.not_named rfl 0 rfl (.single ⟨rfl, rfl, "name", by simp, rfl⟩)
  obtain ⟨hrules, hsymm, -⟩ := looseEquals_laws hbool harray
  have hanswer : circularMemory.looseEquals (.bool false) (.array 0) = true := by
    have htext : circularMemory.display (.array 0) = "" := by cbv
    have hzero : Number.Reading.ofString "" = 0 := rfl
    have href : (Value.array 0).kind ∈ Kind.references := List.mem_cons_self ..
    rw [looseEquals_bool, looseEquals_symm,
      looseEquals_display href (Value.ofBool_mem_plain false), htext]
    show (Number.Reading.ofString "" == 0) = true
    rw [hzero]
    decide
  exact ⟨hbool, harray, hobject, (hrules true).mpr hanswer.symm, hsymm ▸ hanswer⟩

end Circular

end Memory

end SmallScript
