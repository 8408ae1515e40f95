import SmallScript.Memory.Property
import SmallScript.Eval.Effect
import SmallScript.Proofs.Number.Whole
import SmallScript.Proofs.Outcome
import Mathlib

namespace SmallScript

open Number

section Keys

theorem digitValue_of_isDigit {c : Char} (h : Lexical.isDigit c = true) :
    Lexical.digitValue c = c.toNat - '0'.toNat := by
  rw [Lexical.digitValue, if_pos h]

theorem isDigit_iff (c : Char) : Lexical.isDigit c = true ↔ c.isDigit = true := by
  simp [Lexical.isDigit, Char.isDigit, Char.le_def]

theorem numberOf_eq_ofDigitChars {ds : List Char} (h : ∀ c ∈ ds, Lexical.isDigit c = true) :
    Lexical.numberOf 10 ds = Nat.ofDigitChars 10 ds 0 := by
  rw [Lexical.numberOf, Nat.ofDigitChars_eq_foldl]
  refine List.foldl_ext _ _ _ fun n c hc => ?_
  rw [digitValue_of_isDigit (h c hc), Nat.mul_comm]

theorem elementIndex?_eq_some_iff {key : String} {i : Nat} :
    elementIndex? key = some i ↔ i < 2 ^ 32 - 1 ∧ key = toString i := by
  constructor
  · intro h
    simp only [elementIndex?] at h
    split_ifs at h with hdigits hcanonical
    cases h
    refine ⟨hcanonical.1, String.toList_injective ?_⟩
    rw [Nat.toString_eq_ofList_toDigits, String.toList_ofList, hcanonical.2]
  · rintro ⟨hi, rfl⟩
    have hds : (toString i).toList = Nat.toDigits 10 i := by
      rw [Nat.toString_eq_ofList_toDigits, String.toList_ofList]
    have hall : ∀ c ∈ Nat.toDigits 10 i, Lexical.isDigit c = true := fun c hc =>
      (isDigit_iff c).mpr (Nat.isDigit_of_mem_toDigits (by decide) (by decide) hc)
    have hnumber : Lexical.numberOf 10 (Nat.toDigits 10 i) = i := by
      rw [numberOf_eq_ofDigitChars hall, Nat.ofDigitChars_ten_toDigits]
    simp only [elementIndex?, hds, hnumber]
    rw [if_pos ⟨Nat.toDigits_ne_nil, List.all_eq_true.mpr hall⟩, if_pos ⟨hi, trivial⟩]

theorem elementIndex?_toString {i : Nat} (hi : i < 2 ^ 32 - 1) :
    elementIndex? (toString i) = some i :=
  elementIndex?_eq_some_iff.mpr ⟨hi, rfl⟩

theorem elementIndex?_length : elementIndex? "length" = none := by decide

theorem toString_ne_length {i : Nat} (hi : i < 2 ^ 32 - 1) : toString i ≠ "length" := by
  intro h
  have hindex := elementIndex?_toString hi
  rw [h, elementIndex?_length] at hindex
  cases hindex

/-- A number is an array length if its value is a natural number up to `2 ^ 24`. -/
theorem arrayLengthOf_eq_ok_iff {x : Float} {n : Nat} :
    arrayLengthOf x = .ok n ↔ n ≤ 2 ^ 24 ∧ Double.value? x = some (n : ℚ) := by
  have hvalue : (Double.decode x).whole? = some (n : Int) ↔ Double.value? x = some (n : ℚ) := by
    rw [whole?_eq_some_iff, Int.cast_natCast]
    rfl
  have hmax : Fault.maxArrayLength = 2 ^ 24 := rfl
  have hword : ((Nat.pow 2 32 : ℕ) : Int) = 2 ^ 32 := rfl
  rw [← hvalue, arrayLengthOf]
  cases (Double.decode x).whole? with
  | none => simp
  | some i =>
      rw [Option.some.injEq]
      dsimp only
      split_ifs with hrange hlong
      · exact iff_of_false nofun (by omega)
      · exact iff_of_false nofun (by omega)
      · rw [Except.ok.injEq]
        omega

theorem arrayLengthOf_ofNat {n : Nat} (hn : n < 2 ^ 32) :
    arrayLengthOf (Double.ofNat n) = if 2 ^ 24 < n then .error (.arrayTooLong n) else .ok n := by
  have hwhole : (Double.decode (Double.ofNat n)).whole? = some (n : Int) := by
    rw [whole?_eq_some_iff, Int.cast_natCast]
    exact value?_ofNat (by omega)
  have hrange : ¬((n : Int) < 0 ∨ ((Nat.pow 2 32 : ℕ) : Int) ≤ n) := by
    have hword : ((Nat.pow 2 32 : ℕ) : Int) = 2 ^ 32 := rfl
    omega
  simp only [arrayLengthOf, hwhole, if_neg hrange, Int.toNat_natCast]
  rfl

theorem kind_of_arrayLengthOf {x : Float} {e : Fault} (h : arrayLengthOf x = .error e) :
    e.kind = .rangeError := by
  rw [arrayLengthOf] at h
  split at h
  · cases h
    rfl
  · split_ifs at h <;> cases h <;> rfl

end Keys

section Items

/-- The new items are the first `n` of the old ones, filled up with `undefined`. -/
structure Resized (old new : Array Value) (n : Nat) : Prop where
  size_eq : new.size = n
  kept : ∀ j < n, j < old.size → new[j]? = old[j]?
  added : ∀ j < n, old.size ≤ j → new[j]? = some .undefined

/-- The new items are the old ones with `x` at place `i`; what lies between is `undefined`. -/
structure WrittenAt (old new : Array Value) (i : Nat) (x : Value) : Prop where
  size_eq : new.size = max old.size (i + 1)
  written : new[i]? = some x
  kept : ∀ j < old.size, j ≠ i → new[j]? = old[j]?
  added : ∀ j < i, old.size ≤ j → new[j]? = some .undefined

variable {items : Array Value} {n i : Nat} {x : Value}

theorem getElem?_resize (items : Array Value) {n j : Nat} (hj : j < n) :
    (resize items n)[j]? = if j < items.size then items[j]? else some .undefined := by
  unfold resize
  split_ifs with hn hold hold
  · rw [Array.take, Array.getElem?_extract, if_pos (by omega), Nat.zero_add]
  · omega
  · rw [Array.getElem?_append_left hold]
  · rw [Array.getElem?_append_right (by omega), Array.getElem?_replicate, if_pos (by omega)]

theorem resized (items : Array Value) (n : Nat) : Resized items (resize items n) n where
  size_eq := size_resize items n
  kept _ hj hold := by rw [getElem?_resize items hj, if_pos hold]
  added _ hj hnew := by rw [getElem?_resize items hj, if_neg (Nat.not_lt.mpr hnew)]

theorem getElem?_writeElement_of_ne (items : Array Value) (x : Value) {i j : Nat} (hj : j ≠ i) :
    (writeElement items i x)[j]? = if i < items.size then items[j]? else (resize items i)[j]? := by
  unfold writeElement
  split_ifs with hi
  · rw [Array.set!_eq_setIfInBounds, Array.getElem?_setIfInBounds_ne hj.symm]
  · rw [Array.getElem?_push, size_resize, if_neg hj]

theorem writtenAt (items : Array Value) (i : Nat) (x : Value) :
    WrittenAt items (writeElement items i x) i x where
  size_eq := size_writeElement items i x
  written := getElem?_writeElement items i x
  kept j hold hj := by
    rw [getElem?_writeElement_of_ne items x hj]
    split_ifs with hi
    · rfl
    · rw [getElem?_resize items (by omega), if_pos hold]
  added j hj hnew := by
    rw [getElem?_writeElement_of_ne items x hj.ne, if_neg (by omega), getElem?_resize items hj,
      if_neg (Nat.not_lt.mpr hnew)]

/-- To write past the end is to make room first. -/
theorem writeElement_resize (h : items.size ≤ i) :
    writeElement (resize items (i + 1)) i x = writeElement items i x := by
  apply Array.ext_getElem?
  intro j
  obtain rfl | hj := eq_or_ne j i
  · rw [getElem?_writeElement, getElem?_writeElement]
  · rw [getElem?_writeElement_of_ne _ x hj, getElem?_writeElement_of_ne items x hj, size_resize,
      if_pos i.lt_succ_self, if_neg (Nat.not_lt.mpr h)]
    by_cases hlt : j < i
    · rw [getElem?_resize items hlt, getElem?_resize items (Nat.lt_succ_of_lt hlt)]
    · rw [Array.getElem?_eq_none (by rw [size_resize]; omega),
        Array.getElem?_eq_none (by rw [size_resize]; omega)]

end Items

section Writes

/-- The items after a write of `x` to a key, or the fault. -/
inductive ArrayWrite (m : Memory) (items : Array Value) (x : Value) :
    String → Except Fault (Array Value) → Prop
  | element {i : Nat} {new : Array Value} (hi : i < 2 ^ 32 - 1)
      (hroom : i < items.size ∨ i + 1 ≤ 2 ^ 24) (hnew : WrittenAt items new i x) :
      ArrayWrite m items x (toString i) (.ok new)
  | tooLong {i : Nat} (hi : i < 2 ^ 32 - 1) (hend : items.size ≤ i) (hlong : 2 ^ 24 < i + 1) :
      ArrayWrite m items x (toString i) (.error (.arrayTooLong (i + 1)))
  | length {n : Nat} {new : Array Value} (hn : Double.value? (m.toNumber x) = some (n : ℚ))
      (hmax : n ≤ 2 ^ 24) (hnew : Resized items new n) : ArrayWrite m items x "length" (.ok new)
  | noLength {e : Fault} (hn : ¬∃ n : ℕ, Double.value? (m.toNumber x) = some (n : ℚ) ∧ n ≤ 2 ^ 24)
      (he : e.kind = .rangeError) : ArrayWrite m items x "length" (.error e)
  | other {key : String} (hlength : key ≠ "length") (hindex : ∀ i < 2 ^ 32 - 1, key ≠ toString i) :
      ArrayWrite m items x key (.ok items)

/-- What an array with these items answers. -/
structure ArrayAnswers (m : Memory) (a : ArrayRef) (items : Array Value) : Prop where
  length : m.getProperty (.array a) "length" = .ok (.number (Double.ofNat items.size))
  element : ∀ i < 2 ^ 32 - 1, ∀ v, items[i]? = some v →
    m.getProperty (.array a) (toString i) = .ok v
  other : ∀ key, key ≠ "length" → (∀ i < 2 ^ 32 - 1, i < items.size → key ≠ toString i) →
    m.getProperty (.array a) key = .ok .undefined

def State.withItems (s : State) (a : ArrayRef) (items : Array Value) : State :=
  { s with memory := s.memory.modifyArray a fun _ => items }

/-- How a write ends, given the items after it. -/
def arrayOutcome (s : State) (a : ArrayRef) : Except Fault (Array Value) → Outcome State Unit
  | .ok items => .done () (s.withItems a items)
  | .error e => .fail e s

variable {m : Memory} {a : ArrayRef} {items : Array Value} {key : String} {x : Value} {s : State}

theorem arrayAnswers (m : Memory) (a : ArrayRef) : ArrayAnswers m a (m.arrayAt a) where
  length := rfl
  element i hi v hv := by
    simp only [Memory.getProperty, if_neg (toString_ne_length hi), elementIndex?_toString hi, hv,
      Option.getD_some]
  other key hlength hindex := by
    simp only [Memory.getProperty, if_neg hlength]
    cases hkey : elementIndex? key with
    | none => rfl
    | some i =>
        obtain ⟨hi, rfl⟩ := elementIndex?_eq_some_iff.mp hkey
        have hend : (m.arrayAt a).size ≤ i := Nat.not_lt.mp fun h => hindex i hi h rfl
        simp only [Array.getElem?_eq_none hend, Option.getD_none]

theorem ArrayWrite.size_le {new : Array Value} (h : ArrayWrite m items x key (.ok new)) :
    new.size ≤ max items.size (2 ^ 24) := by
  cases h with
  | element _ hroom hnew =>
      rw [hnew.size_eq]
      omega
  | length _ hmax hnew => exact hnew.size_eq.symm ▸ hmax.trans (le_max_right _ _)
  | other => exact le_max_left _ _

theorem Memory.modifyArray_eq (m : Memory) (a : ArrayRef) (f : Array Value → Array Value) :
    m.modifyArray a f = m.modifyArray a fun _ => f (m.arrayAt a) := by
  have hitems : ∀ items ∈ m.arrays[a]?, f items = f (m.arrayAt a) := fun items h => by
    rw [Memory.arrayAt, Option.mem_def.mp h, Option.getD_some]
  rw [Memory.modifyArray, modify_congr hitems, Memory.modifyArray]

theorem State.withItems_arrayAt (s : State) (a : ArrayRef) :
    s.withItems a (s.memory.arrayAt a) = s := by
  have hmemory : s.memory.modifyArray a id = s.memory := by
    rw [Memory.modifyArray, modify_id]
  rw [Memory.modifyArray_eq] at hmemory
  exact congrArg (fun memory => { s with memory }) hmemory

theorem State.withItems_withItems (s : State) (a : ArrayRef) (items new : Array Value) :
    (s.withItems a items).withItems a new = s.withItems a new := by
  simp only [State.withItems, Memory.modifyArray, modify_modify]
  rfl

theorem State.arrayAt_withItems (s : State) (ha : a < s.memory.arrays.size)
    (items : Array Value) (b : ArrayRef) :
    (s.withItems a items).memory.arrayAt b = if a = b then items else s.memory.arrayAt b :=
  s.memory.arrayAt_modifyArray ha _ b

theorem setProperty_array (s : State) (a : ArrayRef) (key : String) (x : Value) :
    Effect.setProperty (.array a) key x s =
      match s.memory.arrayPlace a key x with
      | .ok p => .done () { s with memory := s.memory.write x p }
      | .error e => .fail e s := by
  rw [Effect.setProperty, Effect.bind_apply]
  simp only [Effect.query, Memory.placeOf]
  cases s.memory.arrayPlace a key x <;> rfl

theorem setProperty_length (s : State) (a : ArrayRef) (x : Value) :
    Effect.setProperty (.array a) "length" x s =
      arrayOutcome s a ((arrayLengthOf (s.memory.toNumber x)).map (resize (s.memory.arrayAt a))) := by
  rw [setProperty_array, Memory.arrayPlace, if_pos rfl]
  cases arrayLengthOf (s.memory.toNumber x) with
  | error e => rfl
  | ok n =>
      simp only [Except.map, arrayOutcome, State.withItems, Memory.write]
      rw [Memory.modifyArray_eq]

theorem setProperty_element (s : State) (a : ArrayRef) (x : Value) {i : Nat} (hi : i < 2 ^ 32 - 1) :
    Effect.setProperty (.array a) (toString i) x s =
      arrayOutcome s a
        (if (s.memory.arrayAt a).size ≤ i ∧ 2 ^ 24 < i + 1 then .error (.arrayTooLong (i + 1))
        else .ok (writeElement (s.memory.arrayAt a) i x)) := by
  have hplace : s.memory.arrayPlace a (toString i) x =
      if (s.memory.arrayAt a).size ≤ i ∧ 2 ^ 24 < i + 1 then .error (.arrayTooLong (i + 1))
      else .ok (.element a i) := by
    rw [Memory.arrayPlace, if_neg (toString_ne_length hi), elementIndex?_toString hi]
    rfl
  rw [setProperty_array, hplace]
  split_ifs
  · rfl
  · simp only [arrayOutcome, State.withItems, Memory.write]
    rw [Memory.modifyArray_eq]

theorem setProperty_other (s : State) (a : ArrayRef) (x : Value) (hlength : key ≠ "length")
    (hindex : elementIndex? key = none) : Effect.setProperty (.array a) key x s = .done () s := by
  rw [setProperty_array, Memory.arrayPlace, if_neg hlength, hindex]
  rfl

/-- Every write to an array is one of the kinds. -/
theorem exists_arrayWrite (s : State) (a : ArrayRef) (key : String) (x : Value) :
    ∃ r, ArrayWrite s.memory (s.memory.arrayAt a) x key r ∧
      Effect.setProperty (.array a) key x s = arrayOutcome s a r := by
  by_cases hlength : key = "length"
  · subst key
    refine ⟨_, ?_, setProperty_length s a x⟩
    cases hn : arrayLengthOf (s.memory.toNumber x) with
    | ok n =>
        obtain ⟨hmax, hvalue⟩ := arrayLengthOf_eq_ok_iff.mp hn
        exact .length hvalue hmax (resized _ n)
    | error e =>
        refine .noLength ?_ (kind_of_arrayLengthOf hn)
        rintro ⟨n, hvalue, hmax⟩
        rw [arrayLengthOf_eq_ok_iff.mpr ⟨hmax, hvalue⟩] at hn
        cases hn
  · cases hkey : elementIndex? key with
    | none =>
        refine ⟨_, .other hlength fun i hi hi' => ?_, ?_⟩
        · rw [hi', elementIndex?_toString hi] at hkey
          cases hkey
        · rw [setProperty_other s a x hlength hkey, arrayOutcome, State.withItems_arrayAt]
    | some i =>
        obtain ⟨hi, rfl⟩ := elementIndex?_eq_some_iff.mp hkey
        refine ⟨_, ?_, setProperty_element s a x hi⟩
        split_ifs with hlong
        · exact .tooLong hi hlong.1 hlong.2
        · exact .element hi (by omega) (writtenAt _ i x)

theorem setProperty_past_end (s : State) (ha : a < s.memory.arrays.size) (x : Value) {i : Nat}
    (hi : i < 2 ^ 32 - 1) (hend : (s.memory.arrayAt a).size ≤ i) :
    Effect.setProperty (.array a) (toString i) x s =
      (do
        Effect.setProperty (.array a) "length" (.number (Double.ofNat (i + 1)))
        Effect.setProperty (.array a) (toString i) x) s := by
  have hroom : arrayLengthOf (s.memory.toNumber (.number (Double.ofNat (i + 1)))) =
      if 2 ^ 24 < i + 1 then .error (.arrayTooLong (i + 1)) else .ok (i + 1) :=
    arrayLengthOf_ofNat (by omega)
  rw [Effect.bind_apply, setProperty_length, hroom, setProperty_element s a x hi]
  by_cases hlong : 2 ^ 24 < i + 1
  · rw [if_pos ⟨hend, hlong⟩, if_pos hlong]
    rfl
  · have hitems : (s.withItems a (resize (s.memory.arrayAt a) (i + 1))).memory.arrayAt a =
        resize (s.memory.arrayAt a) (i + 1) := by rw [State.arrayAt_withItems s ha, if_pos rfl]
    rw [if_neg (fun h => hlong h.2), if_neg hlong]
    simp only [Except.map, arrayOutcome, Outcome.bind]
    rw [setProperty_element _ a x hi, hitems, if_neg (fun h => hlong h.2),
      writeElement_resize hend, arrayOutcome, State.withItems_withItems]

/-- No write, to whatever it is, makes an array longer than `2 ^ 24`. -/
theorem size_arrayAt_setProperty {base : Value} {s' : State}
    (h : Effect.setProperty base key x s = .done () s') (b : ArrayRef) :
    (s'.memory.arrayAt b).size ≤ max (s.memory.arrayAt b).size (2 ^ 24) := by
  cases base with
  | array a =>
      obtain ⟨r, hr, hwrite⟩ := exists_arrayWrite s a key x
      rw [hwrite] at h
      cases r with
      | error e => cases h
      | ok new =>
          cases h
          by_cases ha : a < s.memory.arrays.size
          · rw [State.arrayAt_withItems s ha]
            split_ifs with hab
            · exact hab ▸ hr.size_le
            · exact le_max_left _ _
          · have hsame : (s.withItems a new).memory.arrayAt b = s.memory.arrayAt b := by
              simp only [State.withItems, Memory.modifyArray, Memory.arrayAt, Array.modify,
                Array.modifyM, dif_neg ha]
              rfl
            exact hsame ▸ le_max_left _ _
  | undefined | null => cases h
  | _ =>
      cases h
      exact le_max_left _ _

/-- A write to an array is one of the kinds: it fails and leaves the state as it was, or it gives
the array its new items, which are then what the array answers. Past the end it is a write to the
length before one to the element. -/
theorem array_write_by_kind (s : State) (ha : a < s.memory.arrays.size) (key : String) (x : Value) :
    (∃ r, ArrayWrite s.memory (s.memory.arrayAt a) x key r ∧
      Effect.setProperty (.array a) key x s = arrayOutcome s a r ∧
      ∀ new, r = .ok new → ArrayAnswers (s.withItems a new).memory a new) ∧
    (∀ i < 2 ^ 32 - 1, key = toString i → (s.memory.arrayAt a).size ≤ i →
      Effect.setProperty (.array a) key x s =
        (do
          Effect.setProperty (.array a) "length" (.number (Double.ofNat (i + 1)))
          Effect.setProperty (.array a) key x) s) ∧
    ∀ base s', Effect.setProperty base key x s = .done () s' →
      ∀ b, (s'.memory.arrayAt b).size ≤ max (s.memory.arrayAt b).size (2 ^ 24) := by
  obtain ⟨r, hr, hwrite⟩ := exists_arrayWrite s a key x
  refine ⟨⟨r, hr, hwrite, fun new _ => ?_⟩, ?_, fun base s' => size_arrayAt_setProperty⟩
  · have hanswers := arrayAnswers (s.withItems a new).memory a
    rwa [State.arrayAt_withItems s ha, if_pos rfl] at hanswers
  · rintro i hi rfl hend
    exact setProperty_past_end s ha x hi hend

def oneArray : State := ⟨{ Memory.empty with arrays := #[#[.string "a"]] }, "", 0, 0⟩

theorem array_write_by_kind_past_end :
    0 < oneArray.memory.arrays.size ∧
      (∃ r, ArrayWrite oneArray.memory #[.string "a"] .null "2" r ∧
        Effect.setProperty (.array 0) "2" .null oneArray = arrayOutcome oneArray 0 r ∧
        ∀ new, r = .ok new → ArrayAnswers (oneArray.withItems 0 new).memory 0 new) ∧
      Effect.setProperty (.array 0) "2" .null oneArray =
        .done () (oneArray.withItems 0 #[.string "a", .undefined, .null]) :=
  ⟨by decide, (array_write_by_kind oneArray (a := 0) (by decide) "2" .null).1,
    setProperty_element oneArray 0 .null (i := 2) (by decide)⟩

end Writes

end SmallScript
