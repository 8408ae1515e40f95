import SmallScript.Scan

namespace SmallScript.Scan

variable {α β : Type}

theorem bind_apply (p : Scan α) (f : α → Scan β) (s : List Char) :
    (p >>= f) s = (p s).bind fun x => f x.1 x.2 := rfl

theorem pure_apply (a : α) (s : List Char) : (pure a : Scan α) s = some (a, s) := rfl

theorem orElse_apply (p q : Scan α) (s : List Char) : (p <|> q) s = (p s).or (q s) := by
  show (p s <|> q s) = _
  cases p s <;> rfl

theorem map_apply (f : α → β) (p : Scan α) (s : List Char) :
    (f <$> p) s = (p s).map fun x => (f x.1, x.2) := by
  show Option.bind _ _ = _
  cases p s <;> rfl

theorem maybe_apply (p : Scan α) (s : List Char) :
    maybe p s = some (match p s with
      | none => (none, s)
      | some (a, r) => (some a, r)) := by
  rw [maybe]
  cases p s <;> rfl

theorem chars_cons (c : Char) (w : List Char) : chars (c :: w) = (do char c; chars w) := by
  funext s
  cases s with
  | nil => rfl
  | cons c' s =>
      rw [bind_apply, chars, char]
      by_cases h : c' = c <;> simp only [h, ↓reduceIte] <;> rfl

theorem run1_eq (p : Char → Bool) :
    run1 p = (do let c ← satisfy p; let cs ← run p; return c :: cs) := by
  funext s
  cases s with
  | nil => rfl
  | cons c s =>
      rw [bind_apply, run1, satisfy]
      cases p c <;> rfl

end SmallScript.Scan
