import SmallScript.Memory.Property
import Mathlib

namespace SmallScript

namespace Table

variable {α : Type} {t : Table α} {entries : List (String × α)} {x : String}

def setAll (t : Table α) (entries : List (String × α)) : Table α :=
  entries.foldl (fun t e => t.set e.1 e.2) t

def last? (entries : List (String × α)) (x : String) : Option α :=
  ((entries.filter fun e => e.1 = x).getLast?).map Prod.snd

theorem setAll_concat (t : Table α) (entries : List (String × α)) (e : String × α) :
    t.setAll (entries ++ [e]) = (t.setAll entries).set e.1 e.2 := by
  simp [setAll]

theorem last?_concat (entries : List (String × α)) (e : String × α) (x : String) :
    last? (entries ++ [e]) x = if e.1 = x then some e.2 else last? entries x := by
  by_cases he : e.1 = x <;> simp [last?, he]

theorem get?_setAll (t : Table α) (entries : List (String × α)) (x : String) :
    (t.setAll entries).get? x = (last? entries x).or (t.get? x) := by
  induction entries using List.reverseRecOn with
  | nil => rfl
  | append_singleton entries e ih =>
      rw [setAll_concat, get?_set, last?_concat, ih]
      split_ifs <;> rfl

theorem eraseDups_concat (l : List String) (x : String) :
    (l ++ [x]).eraseDups = if x ∈ l then l.eraseDups else l.eraseDups ++ [x] := by
  rw [List.eraseDups_append]
  by_cases hx : x ∈ l <;> simp [List.removeAll, hx, List.eraseDups_cons]

/-- A key that is not there yet comes behind the others. -/
theorem keys_setAll (t : Table α) (entries : List (String × α)) :
    (t.setAll entries).keys =
      t.keys ++ ((entries.map Prod.fst).filter (· ∉ t.keys)).eraseDups := by
  induction entries using List.reverseRecOn with
  | nil => simp [setAll]
  | append_singleton entries e ih =>
      rw [setAll_concat, keys_set, ih, List.map_append, List.map_singleton, List.filter_append]
      by_cases ht : e.1 ∈ t.keys
      · have hsingle : [e.1].filter (· ∉ t.keys) = [] := by simp [ht]
        rw [if_pos (List.mem_append_left _ ht), hsingle, List.append_nil]
      · have hmem : e.1 ∈ t.keys ++ ((entries.map Prod.fst).filter (· ∉ t.keys)).eraseDups ↔
            e.1 ∈ (entries.map Prod.fst).filter (· ∉ t.keys) := by
          rw [List.mem_append, List.mem_eraseDups, or_iff_right ht]
        have hsingle : [e.1].filter (· ∉ t.keys) = [e.1] := by simp [ht]
        rw [hsingle, eraseDups_concat]
        split_ifs with hnew hold hold
        · rfl
        · exact (hold (hmem.mp hnew)).elim
        · exact (hnew (hmem.mpr hold)).elim
        · rw [List.append_assoc]

end Table

structure PropertyWrite where
  base : Value
  key : String
  value : Value

/-- What a write is to the object `o`. -/
def PropertyWrite.keyValue? (o : ObjectRef) : PropertyWrite → Option (String × Value)
  | ⟨.object p, key, value⟩ => if p = o then some (key, value) else none
  | _ => none

namespace Memory

def writeAll (m : Memory) (writes : List PropertyWrite) : Memory :=
  writes.foldl (fun m w => (m.setProperty w.base w.key w.value).toOption.getD m) m

variable {m m' : Memory} {o : ObjectRef} {w : PropertyWrite}

theorem arrayPlace_ne_property {a : ArrayRef} {key : String} {v : Value} {p : Place}
    (h : m.arrayPlace a key v = .ok p) (o : ObjectRef) (k : String) : p ≠ .property o k := by
  rintro rfl
  rw [arrayPlace] at h
  split_ifs at h
  · cases hn : arrayLengthOf (m.toNumber v) <;> rw [hn] at h <;> cases h
  · split at h
    · cases h
    · split_ifs at h
      cases h

theorem objects_setProperty (hbase : ∀ p, w.base ≠ .object p) :
    ((m.setProperty w.base w.key w.value).toOption.getD m).objects = m.objects := by
  obtain ⟨base, key, v⟩ := w
  have harray (a : ArrayRef) (p : Place) (hp : m.arrayPlace a key v = .ok p) :
      (m.write v p).objects = m.objects := by
    cases p with
    | property o k => exact (arrayPlace_ne_property hp o k rfl).elim
    | _ => rfl
  cases base with
  | object p => exact (hbase p rfl).elim
  | array a =>
      simp only [setProperty, placeOf]
      cases hp : m.arrayPlace a key v with
      | error e => rfl
      | ok p => exact harray a p hp
  | _ => rfl

theorem objectAt_write_property (m : Memory) {o p : ObjectRef} (ho : o < m.objects.size)
    (key : String) (v : Value) :
    (m.write v (.property p key)).objectAt o =
      { m.objectAt o with
        properties := (m.objectAt o).properties.setAll
          (PropertyWrite.keyValue? o ⟨.object p, key, v⟩).toList } := by
  rw [PropertyWrite.keyValue?]
  split_ifs with hp
  · subst p
    exact (m.objectAt_modifyObject ho _ o).trans (if_pos rfl)
  · simp [write, modifyObject, objectAt, Array.getElem?_modify, hp, Table.setAll]

theorem objectAt_setProperty (m : Memory) (ho : o < m.objects.size) (w : PropertyWrite) :
    ((m.setProperty w.base w.key w.value).toOption.getD m).objectAt o =
      { m.objectAt o with
        properties := (m.objectAt o).properties.setAll (w.keyValue? o).toList } := by
  obtain ⟨base, key, v⟩ := w
  by_cases hbase : ∃ p, base = .object p
  · obtain ⟨p, rfl⟩ := hbase
    exact m.objectAt_write_property ho key v
  · have hkeyValue : PropertyWrite.keyValue? o ⟨base, key, v⟩ = none := by
      cases base with
      | object p => exact (hbase ⟨p, rfl⟩).elim
      | _ => rfl
    rw [hkeyValue, objectAt, objects_setProperty fun p hp => hbase ⟨p, hp⟩]
    rfl

theorem size_setProperty (m : Memory) (w : PropertyWrite) :
    ((m.setProperty w.base w.key w.value).toOption.getD m).objects.size = m.objects.size := by
  by_cases hbase : ∃ p, w.base = .object p
  · obtain ⟨p, hp⟩ := hbase
    rw [hp]
    exact Array.size_modify
  · rw [objects_setProperty fun p hp => hbase ⟨p, hp⟩]

theorem objectAt_writeAll (m : Memory) (ho : o < m.objects.size) (writes : List PropertyWrite) :
    (m.writeAll writes).objectAt o =
      { m.objectAt o with
        properties := (m.objectAt o).properties.setAll (writes.filterMap (·.keyValue? o)) } := by
  induction writes generalizing m with
  | nil => rfl
  | cons w writes ih =>
      have hrest := ih ((m.setProperty w.base w.key w.value).toOption.getD m)
        (by rwa [size_setProperty])
      rw [objectAt_setProperty m ho] at hrest
      refine hrest.trans ?_
      rw [Table.setAll, Table.setAll, ← List.foldl_append, List.filterMap_cons]
      cases w.keyValue? o <;> rfl

end Memory

end SmallScript
