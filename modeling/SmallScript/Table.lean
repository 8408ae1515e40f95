namespace SmallScript

abbrev Table (α : Type) := List (String × α)

namespace Table

variable {α : Type}

def get? : Table α → String → Option α
  | [], _ => none
  | (k, a) :: t, x => if k = x then some a else get? t x

def set : Table α → String → α → Table α
  | [], x, b => [(x, b)]
  | (k, a) :: t, x, b => if k = x then (k, b) :: t else (k, a) :: set t x b

def has (t : Table α) (x : String) : Bool := (t.get? x).isSome

def keys (t : Table α) : List String := t.map Prod.fst

theorem get?_set (t : Table α) (x : String) (b : α) (y : String) :
    (t.set x b).get? y = if x = y then some b else t.get? y := by
  induction t with
  | nil => rfl
  | cons e t ih =>
    obtain ⟨k, a⟩ := e
    by_cases hk : k = x
    · subst k
      by_cases hy : x = y <;> simp [set, get?, hy]
    · by_cases hy : k = y
      · subst k
        simp [set, get?, hk, Ne.symm hk]
      · simp [set, get?, hk, hy, ih]

theorem keys_set (t : Table α) (x : String) (b : α) :
    (t.set x b).keys = if x ∈ t.keys then t.keys else t.keys ++ [x] := by
  induction t with
  | nil => rfl
  | cons e t ih =>
    obtain ⟨k, a⟩ := e
    by_cases hk : k = x
    · simp [set, keys, hk]
    · simp only [keys] at ih
      by_cases hx : x ∈ t.map Prod.fst <;> simp_all [set, keys, Ne.symm hk]

theorem nodup_keys_set {t : Table α} (h : t.keys.Nodup) (x : String) (b : α) :
    (t.set x b).keys.Nodup := by
  rw [keys_set]
  split
  · exact h
  · rename_i hx
    grind

end Table

end SmallScript
