import SmallScript.Proofs.Peg.Basic
import SmallScript.Proofs.Repetition
import Mathlib.Logic.Relation
import Mathlib.Order.Nat

namespace SmallScript.Peg

variable {R : Type} {Result : R → Type} {α β γ : Type}

/-- All repeated expressions in an expression have the property. -/
def EachRepeated (P : ∀ {α : Type}, Peg Result α → Prop) : {α : Type} → Peg Result α → Prop
  | _, .value _ | _, .satisfy _ | _, .rule _ _ => True
  | _, .seq _ p q => EachRepeated P p ∧ EachRepeated P q
  | _, .alt p q => EachRepeated P p ∧ EachRepeated P q
  | _, .convert _ p | _, .absent _ p => EachRepeated P p
  | _, .many _ p => P p ∧ EachRepeated P p

section Checks

variable (taking : R → Bool) (rank : R → Nat)

/-- No success without a character, as far as the form of the expression and the rules that are
`taking` tell. -/
def takes : {α : Type} → Peg Result α → Bool
  | _, .value _ | _, .many _ _ | _, .absent _ _ => false
  | _, .satisfy _ => true
  | _, .rule r _ => taking r
  | _, .seq _ p q => p.takes || q.takes
  | _, .alt p q => p.takes && q.takes
  | _, .convert _ p => p.takes

def guarded : {α : Type} → Peg Result α → Bool
  | _, .value _ | _, .satisfy _ | _, .rule _ _ => true
  | _, .seq _ p q | _, .alt p q => p.guarded && q.guarded
  | _, .convert _ p | _, .absent _ p => p.guarded
  | _, .many _ p => p.takes taking && p.guarded

/-- The rules called before a character has been taken have ranks below `n`. -/
def descends (n : Nat) : {α : Type} → Peg Result α → Bool
  | _, .value _ | _, .satisfy _ => true
  | _, .rule r _ => decide (rank r < n)
  | _, .seq _ p q => p.descends n && (p.takes taking || q.descends n)
  | _, .alt p q => p.descends n && q.descends n
  | _, .convert _ p | _, .many _ p | _, .absent _ p => p.descends n

end Checks

/-- A grammar that cannot go on without taking characters. -/
structure WellFormed (body : ∀ r, Peg Result (Result r)) (taking : R → Bool) (rank : R → Nat) :
    Prop where
  takes : ∀ r, taking r = true → (body r).takes taking = true
  guarded : ∀ r, (body r).guarded taking = true
  descends : ∀ r, (body r).descends taking rank (rank r) = true
  bounded : ∃ n, ∀ r, rank r < n

variable {body : ∀ r, Peg Result (Result r)} {taking : R → Bool} {rank : R → Nat}
  {p : Peg Result α} {s t : List Char} {x : Option (α × List Char)} {r : R} {n : Nat}

/-- What is left is no longer, and shorter if the expression takes a character. -/
theorem Runs.length_le (htakes : ∀ r, taking r = true → (body r).takes taking = true)
    (h : Runs body p s x) : ∀ y ∈ x,
      y.2.length ≤ s.length ∧ (p.takes taking = true → y.2.length < s.length) := by
  induction h with
  | value a s =>
      rintro _ ⟨⟩
      exact ⟨Nat.le_refl _, nofun⟩
  | satisfy_nil => nofun
  | satisfy_cons f c s =>
      intro y hy
      obtain ⟨a, -, rfl⟩ := Option.map_eq_some_iff.mp hy
      exact ⟨Nat.le_succ _, fun _ => Nat.lt_succ_self _⟩
  | @rule _ r f s x _ ih =>
      intro y hy
      obtain ⟨z, hz, rfl⟩ := Option.map_eq_some_iff.mp hy
      exact ⟨(ih z hz).1, fun hr => (ih z hz).2 (htakes r hr)⟩
  | seq_none => nofun
  | @seq_some _ _ _ f p q s t a x _ _ ihp ihq =>
      intro y hy
      obtain ⟨z, hz, rfl⟩ := Option.map_eq_some_iff.mp hy
      obtain ⟨hple, hp⟩ := ihp _ rfl
      obtain ⟨hqle, hq⟩ := ihq z hz
      refine ⟨hqle.trans hple, fun h => ?_⟩
      rw [takes, Bool.or_eq_true] at h
      rcases h with h | h
      · exact hqle.trans_lt (hp h)
      · exact (hq h).trans_le hple
  | alt_some _ ih =>
      intro y hy
      refine ⟨(ih y hy).1, fun h => (ih y hy).2 ?_⟩
      rw [takes, Bool.and_eq_true] at h
      exact h.1
  | alt_none _ _ _ ih =>
      intro y hy
      refine ⟨(ih y hy).1, fun h => (ih y hy).2 ?_⟩
      rw [takes, Bool.and_eq_true] at h
      exact h.2
  | convert _ ih =>
      intro y hy
      obtain ⟨z, hz, hy⟩ := Option.bind_eq_some_iff.mp hy
      obtain ⟨b, -, rfl⟩ := Option.map_eq_some_iff.mp hy
      exact ih z hz
  | many_nil | absent_none =>
      rintro _ ⟨⟩
      exact ⟨Nat.le_refl _, nofun⟩
  | many_cons _ _ ihp ihq => exact fun y hy => ⟨((ihq y hy).1).trans (ihp _ rfl).1, nofun⟩
  | absent_some => nofun

section Answer

open Scan

variable {g : ∀ r, Scan (Result r)}

theorem read_seq_apply (f : α → β → γ) (p : Peg Result α) (q : Peg Result β) (s : List Char) :
    (seq f p q).read g s =
      (p.read g s).bind fun x => (q.read g x.2).map fun y => (f x.1 y.1, y.2) := by
  rw [read, bind_apply]
  congr 1
  funext x
  rw [bind_apply]
  cases q.read g x.2 <;> rfl

theorem read_convert_apply (f : α → Option β) (p : Peg Result α) (s : List Char) :
    (convert f p).read g s = (p.read g s).bind fun x => (f x.1).map fun b => (b, x.2) := by
  rw [read, bind_apply]
  congr 1
  funext x
  cases f x.1 <;> rfl

theorem shrinks_read (hshrinks : ∀ r, Shrinks (g r))
    (htakes : ∀ r, taking r = true → Takes (g r)) (p : Peg Result α) :
    Shrinks (p.read g) ∧ (p.takes taking = true → Takes (p.read g)) := by
  induction p with
  | value a => exact ⟨.pure a, nofun⟩
  | satisfy f =>
      have htake : Takes ((Peg.satisfy f : Peg Result _).read g) := by
        intro s a t h
        cases s with
        | nil => cases h
        | cons c s =>
            obtain ⟨b, -, heq⟩ := Option.map_eq_some_iff.mp h
            cases heq
            exact Nat.lt_succ_self _
      exact ⟨htake.shrinks, fun _ => htake⟩
  | rule r f => exact ⟨(hshrinks r).map, fun h => (htakes r h).map⟩
  | seq f p q ihp ihq =>
      have hq : ∀ a, Shrinks (do let b ← q.read g; return f a b) := fun a =>
        ihq.1.bind fun b => .pure _
      refine ⟨ihp.1.bind hq, fun h => ?_⟩
      rw [takes, Bool.or_eq_true] at h
      rcases h with h | h
      · exact (ihp.2 h).bind hq
      · exact .behind ihp.1 fun a => (ihq.2 h).bind fun b => .pure _
  | alt p q ihp ihq =>
      refine ⟨ihp.1.orElse ihq.1, fun h => ?_⟩
      rw [takes, Bool.and_eq_true] at h
      exact (ihp.2 h.1).orElse (ihq.2 h.2)
  | convert f p ih =>
      refine ⟨ih.1.bind fun a => ?_, fun h => (ih.2 h).bind fun a => ?_⟩
      all_goals
        cases f a with
        | none => exact .failure
        | some b => exact .pure b
  | many f p ih => exact ⟨ih.1.many.map, nofun⟩
  | absent b p ih =>
      refine ⟨fun s a t h => ?_, nofun⟩
      simp only [read] at h
      split at h <;> cases h
      exact Nat.le_refl _

theorem descends_of_bounded (h : ∀ r, rank r < n) (p : Peg Result α) :
    p.descends taking rank n = true := by
  induction p with
  | value | satisfy => rfl
  | rule r f => exact decide_eq_true (h r)
  | seq _ p q ihp ihq => rw [descends, ihp, ihq, Bool.or_true, Bool.and_true]
  | alt p q ihp ihq => rw [descends, ihp, ihq, Bool.and_true]
  | convert _ p ih | many _ p ih | absent _ p ih => rw [descends, ih]

section

variable (hshrinks : ∀ r, Shrinks (g r)) (htakes : ∀ r, taking r = true → Takes (g r)) {k : Nat}
  (hshort : ∀ t : List Char, t.length < k → ∀ {α : Type} (p : Peg Result α),
    p.guarded taking = true → Runs body p t (p.read g t))

include hshrinks htakes hshort

/-- An expression runs to what it reads if rules of lower rank do, and everything does on shorter
texts. -/
theorem runs_read_of_rules
    (hrules : ∀ r, rank r < n → ∀ s : List Char, s.length ≤ k → Runs body (body r) s (g r s))
    (p : Peg Result α) (hguarded : p.guarded taking = true)
    (hdescends : p.descends taking rank n = true) (s : List Char) (hs : s.length ≤ k) :
    Runs body p s (p.read g s) := by
  have hread {α : Type} (p : Peg Result α) := shrinks_read hshrinks htakes p
  induction p generalizing s with
  | value a => exact .value a s
  | satisfy f =>
      cases s with
      | nil => exact .satisfy_nil f
      | cons c s => exact .satisfy_cons f c s
  | rule r f =>
      have hrun := (hrules r (of_decide_eq_true hdescends) s hs).rule (f := f)
      rwa [read, map_apply]
  | seq f p q ihp ihq =>
      rw [guarded, Bool.and_eq_true] at hguarded
      rw [descends, Bool.and_eq_true, Bool.or_eq_true] at hdescends
      have hp := ihp hguarded.1 hdescends.1 s hs
      rw [read_seq_apply]
      cases hps : p.read g s with
      | none =>
          rw [hps] at hp
          exact .seq_none hp
      | some x =>
          rw [hps] at hp
          have hle := (hread p).1 s _ _ hps
          refine hp.seq_some ?_
          rcases hdescends.2 with h | h
          · have hlt := (hread p).2 h s _ _ hps
            exact hshort x.2 (by omega) q hguarded.2
          · exact ihq hguarded.2 h x.2 (by omega)
  | alt p q ihp ihq =>
      rw [guarded, Bool.and_eq_true] at hguarded
      rw [descends, Bool.and_eq_true] at hdescends
      have hp := ihp hguarded.1 hdescends.1 s hs
      rw [read, orElse_apply]
      cases hps : p.read g s with
      | none =>
          rw [hps] at hp
          exact .alt_none hp (ihq hguarded.2 hdescends.2 s hs)
      | some x =>
          rw [hps] at hp
          exact .alt_some hp
  | convert f p ih =>
      rw [read_convert_apply]
      exact .convert (ih hguarded hdescends s hs)
  | many f p ih =>
      have hitem := hguarded
      rw [guarded, Bool.and_eq_true] at hitem
      have hp := ih hitem.2 hdescends s hs
      rw [read, map_apply]
      cases hps : p.read g s with
      | none =>
          rw [hps] at hp
          rw [many_of_none hps]
          exact .many_nil hp
      | some x =>
          rw [hps] at hp
          have htakes := (hread p).2 hitem.1
          have hlt := htakes s _ _ hps
          rw [many_of_some htakes hps, Option.map_map]
          have hrest := hshort x.2 (by omega) (.many (fun as => f (x.1 :: as)) p) hguarded
          rw [read, map_apply] at hrest
          exact hp.many_cons hrest
  | absent b p ih =>
      have hp := ih hguarded hdescends s hs
      simp only [read]
      cases hps : p.read g s with
      | none =>
          rw [hps] at hp
          exact .absent_none hp
      | some x =>
          rw [hps] at hp
          exact .absent_some hp

theorem runs_body_of_short (hwf : WellFormed body taking rank)
    (hbody : ∀ r, (body r).read g = g r) (n : Nat) (r : R) (hr : rank r < n) (s : List Char)
    (hs : s.length ≤ k) : Runs body (body r) s (g r s) := by
  induction n generalizing r s with
  | zero => cases hr
  | succ n ih =>
      rw [← hbody r]
      exact runs_read_of_rules hshrinks htakes hshort (fun r' hr' => ih r' (by omega)) (body r)
        (hwf.guarded r) (hwf.descends r) s hs

end

/-- Every expression of a well-formed grammar runs to what it reads. -/
theorem WellFormed.runs_read (hwf : WellFormed body taking rank) (hshrinks : ∀ r, Shrinks (g r))
    (htakes : ∀ r, taking r = true → Takes (g r)) (hbody : ∀ r, (body r).read g = g r)
    (p : Peg Result α) (hp : p.guarded taking = true) (s : List Char) :
    Runs body p s (p.read g s) := by
  obtain ⟨n, hn⟩ := hwf.bounded
  suffices hshort : ∀ k, ∀ t : List Char, t.length < k → ∀ {α : Type} (p : Peg Result α),
      p.guarded taking = true → Runs body p t (p.read g t) from
    hshort (s.length + 1) s (Nat.lt_succ_self _) p hp
  intro k
  induction k with
  | zero => exact fun _ h => absurd h (Nat.not_lt_zero _)
  | succ k ih =>
      intro t ht α p hp
      refine runs_read_of_rules hshrinks htakes ih (fun r hr s hs => ?_) p hp
        (descends_of_bounded hn p) t (Nat.le_of_lt_succ ht)
      exact runs_body_of_short hshrinks htakes ih hwf hbody n r hr s hs

theorem WellFormed.runs_iff (hwf : WellFormed body taking rank) (hshrinks : ∀ r, Shrinks (g r))
    (htakes : ∀ r, taking r = true → Takes (g r)) (hbody : ∀ r, (body r).read g = g r) (r : R)
    (s : List Char) (x : Option (Result r × List Char)) :
    Runs body (body r) s x ↔ x = g r s := by
  have hrun := hwf.runs_read hshrinks htakes hbody (body r) (hwf.guarded r) s
  rw [hbody] at hrun
  exact ⟨fun h => h.unique hrun, fun h => h ▸ hrun⟩

end Answer

section Paths

open Relation

theorem WellFormed.consumes (hwf : WellFormed body taking rank) (hp : p.takes taking = true) :
    p.Consumes body :=
  fun _ _ _ h => (h.length_le hwf.takes _ rfl).2 hp

theorem WellFormed.eachRepeated (hwf : WellFormed body taking rank) (p : Peg Result α)
    (hp : p.guarded taking = true) : p.EachRepeated (Consumes body) := by
  induction p with
  | value | satisfy | rule => trivial
  | seq _ p q ihp ihq | alt p q ihp ihq =>
      rw [Peg.guarded, Bool.and_eq_true] at hp
      exact ⟨ihp hp.1, ihq hp.2⟩
  | convert _ p ih | absent _ p ih => exact ih hp
  | many _ p ih =>
      rw [Peg.guarded, Bool.and_eq_true] at hp
      exact ⟨hwf.consumes hp.1, ih hp.2⟩

theorem Comes.length_le (htakes : ∀ r, taking r = true → (body r).takes taking = true)
    (h : Comes body p s r t) : t.length ≤ s.length ∧
      (p.descends taking rank n = true → t.length < s.length ∨ rank r < n) := by
  induction h with
  | rule r f s => exact ⟨Nat.le_refl _, fun h => .inr (of_decide_eq_true h)⟩
  | seq_left _ ih | alt_left _ ih =>
      refine ⟨ih.1, fun h => ih.2 ?_⟩
      rw [descends, Bool.and_eq_true] at h
      exact h.1
  | seq_right hp _ ih =>
      obtain ⟨hple, hlt⟩ := hp.length_le htakes _ rfl
      refine ⟨ih.1.trans hple, fun h => ?_⟩
      rw [descends, Bool.and_eq_true, Bool.or_eq_true] at h
      rcases h.2 with h | h
      · exact .inl (ih.1.trans_lt (hlt h))
      · exact (ih.2 h).imp_left fun hlt => hlt.trans_le hple
  | alt_right _ _ ih =>
      refine ⟨ih.1, fun h => ih.2 ?_⟩
      rw [descends, Bool.and_eq_true] at h
      exact h.2
  | convert _ ih | many_first _ ih | absent _ ih => exact ih
  | many_next hp _ ih =>
      have hple := (hp.length_le htakes _ rfl).1
      exact ⟨ih.1.trans hple, fun h => (ih.2 h).imp_left fun hlt => hlt.trans_le hple⟩

/-- Along a path of calls the text does not grow, and as long as it stays the ranks go down. -/
theorem WellFormed.length_le_of_path (hwf : WellFormed body taking rank) {x y : R × List Char}
    (h : TransGen (Calls body) x y) :
    y.2.length ≤ x.2.length ∧ (y.2.length < x.2.length ∨ rank y.1 < rank x.1) := by
  have hstep {x y : R × List Char} (h : Calls body x y) :
      y.2.length ≤ x.2.length ∧ (y.2.length < x.2.length ∨ rank y.1 < rank x.1) := by
    have hlength : _ ∧ ((body x.1).descends taking rank (rank x.1) = true → _) :=
      h.length_le hwf.takes
    exact ⟨hlength.1, hlength.2 (hwf.descends x.1)⟩
  induction h with
  | single h => exact hstep h
  | tail _ h ih =>
      have := hstep h
      omega

/-- A rule that comes back to itself has taken a character in between. -/
theorem WellFormed.length_lt_of_path (hwf : WellFormed body taking rank)
    (h : TransGen (Calls body) (r, s) (r, t)) : t.length < s.length :=
  (hwf.length_le_of_path h).2.resolve_right (Nat.lt_irrefl _)

end Paths

end SmallScript.Peg
