import SmallScript.Proofs.Peg.Basic
import SmallScript.Proofs.Repetition

namespace SmallScript.Peg

variable {R : Type} {Result : R → Type} {α β : Type} {g : ∀ r, Scan (Result r)}

instance : Applicative (Peg Result) where
  pure := .value
  map f p := .convert (fun a => some (f a)) p
  seq p q := .seq (fun f a => f a) p (q ())
  seqLeft p q := .seq (fun a _ => a) p (q ())
  seqRight p q := .seq (fun _ b => b) p (q ())

instance : Alternative (Peg Result) where
  failure := .satisfy fun _ => none
  orElse p q := .alt p (q ())

@[simp]
theorem read_pure (a : α) : (pure a : Peg Result α).read g = pure a := rfl

@[simp]
theorem read_map (f : α → β) (p : Peg Result α) : (f <$> p).read g = f <$> p.read g := by
  rw [map_eq_pure_bind]
  rfl

@[simp]
theorem read_ap (p : Peg Result (α → β)) (q : Peg Result α) :
    (p <*> q).read g = (do let f ← p.read g; let a ← q.read g; return f a) := rfl

@[simp]
theorem read_seqLeft (p : Peg Result α) (q : Peg Result β) :
    (p <* q).read g = (do let a ← p.read g; let _ ← q.read g; return a) := rfl

@[simp]
theorem read_seqRight (p : Peg Result α) (q : Peg Result β) :
    (p *> q).read g = (do let _ ← p.read g; q.read g) := by
  show (p.read g >>= fun _ => q.read g >>= fun b => pure b) = _
  simp only [bind_pure]

@[simp]
theorem read_orElse (p q : Peg Result α) : (p <|> q).read g = (p.read g <|> q.read g) := rfl

@[simp]
theorem read_failure : (failure : Peg Result α).read g = failure := by
  funext s
  cases s <;> rfl

def gives (p : Peg Result α) (b : β) : Peg Result β := (fun _ => b) <$> p

def one (F : Char → Bool) : Peg Result Char := .satisfy fun c => if F c then some c else none

def char (c : Char) : Peg Result Unit := .satisfy fun d => if d = c then some () else none

def chars : List Char → Peg Result Unit
  | [] => pure ()
  | c :: w => char c *> chars w

def text (w : String) : Peg Result Unit := chars w.toList

def notNext (F : Char → Bool) : Peg Result Unit := .absent () (one F)

def star (p : Peg Result α) : Peg Result (List α) := .many id p

def run (F : Char → Bool) : Peg Result (List Char) := star (one F)

def run1 (F : Char → Bool) : Peg Result (List Char) := List.cons <$> one F <*> run F

def maybe (p : Peg Result α) : Peg Result (Option α) := some <$> p <|> pure none

def sepBy (item : Peg Result α) (separator : Peg Result Unit) : Peg Result (List α) :=
  (fun as => as.getD []) <$> maybe (List.cons <$> item <*> star (separator *> item))

def times (p : Peg Result α) : Nat → Peg Result (List α)
  | 0 => pure []
  | n + 1 => List.cons <$> p <*> times p n

theorem read_convert (f : α → Option β) (p : Peg Result α) :
    (convert f p).read g = (do
      let a ← p.read g
      match f a with
      | some b => return b
      | none => failure) := rfl

@[simp]
theorem read_gives (p : Peg Result α) (b : β) :
    (p.gives b).read g = (do let _ ← p.read g; return b) := rfl

@[simp]
theorem read_one (F : Char → Bool) : (one F : Peg Result Char).read g = Scan.satisfy F := by
  funext s
  cases s with
  | nil => rfl
  | cons c s =>
      simp only [one, read, Scan.satisfy]
      split <;> rfl

@[simp]
theorem read_char (c : Char) : (char c : Peg Result Unit).read g = Scan.char c := by
  funext s
  cases s with
  | nil => rfl
  | cons d s =>
      simp only [char, read, Scan.char]
      split <;> rfl

@[simp]
theorem read_text (w : String) : (text w : Peg Result Unit).read g = Scan.text w := by
  rw [text, Scan.text]
  induction w.toList with
  | nil => rfl
  | cons c w ih => rw [chars, read_seqRight, read_char, ih, Scan.chars_cons]

@[simp]
theorem read_notNext (F : Char → Bool) : (notNext F : Peg Result Unit).read g = Scan.notNext F := by
  funext s
  cases s with
  | nil => rfl
  | cons c s =>
      simp only [notNext, read, read_one, Scan.satisfy, Scan.notNext]
      cases F c <;> rfl

@[simp]
theorem read_star (p : Peg Result α) : (star p).read g = Scan.many (p.read g) := by
  rw [star, read, id_map]

theorem takes_satisfy (F : Char → Bool) : Scan.Takes (Scan.satisfy F) := by
  intro s a r h
  obtain ⟨c, s, rfl, -⟩ := Scan.First.satisfy.front h
  rw [Scan.satisfy, Option.ite_none_right_eq_some] at h
  cases h.2
  exact Nat.lt_succ_self _

@[simp]
theorem read_run (F : Char → Bool) : (run F : Peg Result (List Char)).read g = Scan.run F := by
  funext s
  rw [run, read_star, read_one, Scan.run]
  induction s with
  | nil => rfl
  | cons c s ih =>
      cases hc : F c with
      | false =>
          have hnone : Scan.satisfy F (c :: s) = none := by rw [Scan.satisfy, hc]; rfl
          rw [Scan.many_of_none hnone, List.takeWhile_cons_of_neg (by simp [hc]),
            List.dropWhile_cons_of_neg (by simp [hc])]
      | true =>
          have hsome : Scan.satisfy F (c :: s) = some (c, s) := by rw [Scan.satisfy, hc]; rfl
          rw [Scan.many_of_some (takes_satisfy F) hsome, ih,
            List.takeWhile_cons_of_pos hc,
            List.dropWhile_cons_of_pos hc]
          rfl

@[simp]
theorem read_run1 (F : Char → Bool) : (run1 F : Peg Result (List Char)).read g = Scan.run1 F := by
  rw [run1, Scan.run1_eq]
  simp only [read_ap, read_map, read_one, read_run, bind_map_left]

@[simp]
theorem read_maybe (p : Peg Result α) : (maybe p).read g = Scan.maybe (p.read g) := by
  funext s
  rw [maybe, read_orElse, Scan.orElse_apply, read_map, Scan.map_apply, Scan.maybe_apply]
  cases p.read g s <;> rfl

@[simp]
theorem read_sepBy (item : Peg Result α) (separator : Peg Result Unit) :
    (sepBy item separator).read g = Scan.sepBy (item.read g) (separator.read g) := by
  funext s
  simp only [sepBy, read_map, read_maybe, read_ap, read_star, read_seqRight,
    map_eq_pure_bind, bind_assoc, pure_bind]
  rw [Scan.sepBy, Scan.bind_apply, Scan.bind_apply, Scan.maybe_apply, Scan.maybe_apply,
    Scan.bind_apply]
  cases item.read g s <;> rfl

end SmallScript.Peg
