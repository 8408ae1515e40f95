import SmallScript.Proofs.Scan

namespace SmallScript.Scan

variable {α β : Type} {p q : Scan α} {s r : List Char} {a : α}

/-- Every success takes a character. -/
def Takes (p : Scan α) : Prop := ∀ s a r, p s = some (a, r) → r.length < s.length

theorem upTo_eq_repeated (hp : Takes p) {n : Nat} (h : s.length ≤ n) : upTo p n s = repeated p s := by
  have hbound {i j : Nat} {s : List Char} (hi : s.length ≤ i) (hj : s.length ≤ j) :
      upTo p i s = upTo p j s := by
    induction i generalizing j s with
    | zero =>
        have hnone : p s = none := by
          rw [Option.eq_none_iff_forall_ne_some]
          intro x hx
          have := hp _ _ _ hx
          omega
        cases j <;> simp only [upTo, hnone]
    | succ i ih =>
        cases hs : p s with
        | none => cases j <;> simp only [upTo, hs]
        | some x =>
            have := hp _ _ _ hs
            cases j with
            | zero => omega
            | succ j => simp only [upTo, hs, ih (s := x.2) (j := j) (by omega) (by omega)]
  rw [repeated]
  cases hs : p s with
  | none => cases n <;> simp only [upTo, hs]
  | some x =>
      have := hp _ _ _ hs
      cases n with
      | zero => omega
      | succ n => simp only [upTo, hs, hbound (i := n) (j := x.2.length) (by omega) (Nat.le_refl _)]

theorem many_of_none (h : p s = none) : many p s = some ([], s) := by
  rw [many, repeated, h]

theorem eq_of_many_nil (h : many p s = some ([], r)) : r = s := by
  rw [many, repeated, Option.some.injEq] at h
  cases hp : p s with
  | none =>
      rw [hp] at h
      cases h
      rfl
  | some x =>
      rw [hp] at h
      cases h

theorem many_of_some (hp : Takes p) (h : p s = some (a, r)) :
    many p s = (many p r).map fun x => (a :: x.1, x.2) := by
  rw [many, repeated, h, many, Option.map_some]
  simp only [upTo_eq_repeated hp (Nat.le_refl r.length)]

theorem of_many_cons (hp : Takes p) {as : List α} (h : many p s = some (a :: as, r)) :
    ∃ u, p s = some (a, u) ∧ many p u = some (as, r) := by
  cases hs : p s with
  | none =>
      rw [many_of_none hs] at h
      cases h
  | some x =>
      rw [many_of_some hp hs, Option.map_eq_some_iff] at h
      obtain ⟨y, hy, heq⟩ := h
      cases heq
      exact ⟨x.2, rfl, hy⟩

theorem maybe_of_none (h : p s = none) : maybe p s = some (none, s) := by
  rw [maybe_apply, h]

theorem maybe_of_some (h : p s = some (a, r)) : maybe p s = some (some a, r) := by
  rw [maybe_apply, h]

theorem bind_of_none {f : α → Scan β} (h : p s = none) : (p >>= f) s = none := by
  rw [bind_apply, h, Option.bind_none]

theorem bind_of_some {f : α → Scan β} (h : p s = some (a, r)) : (p >>= f) s = f a r := by
  rw [bind_apply, h, Option.bind_some]

theorem orElse_of_none (h : p s = none) : (p <|> q) s = q s := by
  rw [orElse_apply, h, Option.none_or]

theorem orElse_of_some (h : p s = some (a, r)) : (p <|> q) s = some (a, r) := by
  rw [orElse_apply, h, Option.some_or]

theorem map_of_none {f : α → β} (h : p s = none) : (f <$> p) s = none := by
  rw [map_apply, h, Option.map_none]

theorem map_of_some {f : α → β} (h : p s = some (a, r)) : (f <$> p) s = some (f a, r) := by
  rw [map_apply, h, Option.map_some]

theorem bind_eq_some {f : α → Scan β} {x : β × List Char} (h : (p >>= f) s = some x) :
    ∃ a r, p s = some (a, r) ∧ f a r = some x := by
  rw [bind_apply, Option.bind_eq_some_iff] at h
  obtain ⟨y, hy, hx⟩ := h
  exact ⟨y.1, y.2, hy, hx⟩

theorem eq_of_maybe (h : maybe p s = some (some a, r)) : p s = some (a, r) := by
  rw [maybe_apply] at h
  cases hp : p s with
  | none =>
      rw [hp] at h
      cases h
  | some x =>
      rw [hp] at h
      cases h
      rfl

theorem char_self (c : Char) (r : List Char) : char c (c :: r) = some ((), r) := if_pos rfl

theorem eq_cons_of_char {c : Char} {u : Unit} (h : char c s = some (u, r)) : s = c :: r := by
  cases s with
  | nil => cases h
  | cons d s =>
      rw [char, Option.ite_none_right_eq_some] at h
      obtain ⟨rfl, heq⟩ := h
      cases heq
      rfl

theorem chars_append (w r : List Char) : chars w (w ++ r) = some ((), r) := by
  induction w with
  | nil => rfl
  | cons c w ih => rw [List.cons_append, chars, if_pos rfl, ih]

theorem eq_append_of_chars {w : List Char} {u : Unit} (h : chars w s = some (u, r)) : s = w ++ r := by
  induction w generalizing s with
  | nil => cases h; rfl
  | cons c w ih =>
      cases s with
      | nil => cases h
      | cons d s =>
          rw [chars, Option.ite_none_right_eq_some] at h
          rw [h.1, ih h.2, List.cons_append]

theorem notNext_eq_some_iff {F : Char → Bool} {u : Unit} :
    notNext F s = some (u, r) ↔ r = s ∧ ∀ c r', s = c :: r' → F c = false := by
  cases s with
  | nil =>
      simp only [notNext, Option.some.injEq, Prod.mk.injEq, true_and]
      exact ⟨fun h => ⟨h.symm, nofun⟩, fun h => h.1.symm⟩
  | cons c s =>
      rw [notNext, Option.ite_none_left_eq_some, Option.some.injEq, Prod.mk.injEq]
      constructor
      · rintro ⟨hc, -, rfl⟩
        refine ⟨rfl, ?_⟩
        rintro _ _ ⟨⟩
        simpa using hc
      · rintro ⟨rfl, hc⟩
        exact ⟨by simp [hc c s rfl], rfl, rfl⟩

def Shrinks (p : Scan α) : Prop := ∀ s a r, p s = some (a, r) → r.length ≤ s.length

namespace Shrinks

variable {p q : Scan α}

theorem pure (a : α) : Shrinks (pure a : Scan α) := by
  intro s b r h
  cases h
  exact Nat.le_refl _

theorem failure : Shrinks (failure : Scan α) := fun _ _ _ => nofun

theorem bind {f : α → Scan β} (hp : Shrinks p) (hf : ∀ a, Shrinks (f a)) : Shrinks (p >>= f) := by
  intro s b r h
  obtain ⟨a, u, hu, hr⟩ := bind_eq_some h
  exact Nat.le_trans (hf a u b r hr) (hp s a u hu)

theorem orElse (hp : Shrinks p) (hq : Shrinks q) : Shrinks (p <|> q) := by
  intro s a r h
  rw [orElse_apply, Option.or_eq_some_iff] at h
  rcases h with h | ⟨-, h⟩
  · exact hp s a r h
  · exact hq s a r h

theorem map {f : α → β} (hp : Shrinks p) : Shrinks (f <$> p) := by
  intro s b r h
  rw [map_apply, Option.map_eq_some_iff] at h
  obtain ⟨x, hx, heq⟩ := h
  cases heq
  exact hp s _ _ hx

theorem maybe (hp : Shrinks p) : Shrinks (maybe p) := by
  intro s x r h
  rw [maybe_apply] at h
  cases hs : p s with
  | none =>
      rw [hs] at h
      cases h
      exact Nat.le_refl _
  | some y =>
      rw [hs] at h
      cases h
      exact hp s _ _ hs

theorem upTo (hp : Shrinks p) (i : Nat) (s : List Char) : (Scan.upTo p i s).2.length ≤ s.length := by
  induction i generalizing s with
  | zero => exact Nat.le_refl _
  | succ i ih =>
      cases hs : p s with
      | none => simp only [Scan.upTo, hs, Nat.le_refl]
      | some x =>
          simp only [Scan.upTo, hs]
          exact Nat.le_trans (ih x.2) (hp s _ _ hs)

theorem many (hp : Shrinks p) : Shrinks (many p) := by
  intro s as r h
  rw [Scan.many, Option.some.injEq, repeated] at h
  cases hs : p s with
  | none =>
      rw [hs] at h
      cases h
      exact Nat.le_refl _
  | some x =>
      rw [hs] at h
      cases h
      exact Nat.le_trans (hp.upTo _ _) (hp s _ _ hs)

theorem notNext (F : Char → Bool) : Shrinks (notNext F) := fun _ _ _ h =>
  Nat.le_of_eq (congrArg List.length (notNext_eq_some_iff.mp h).1)

end Shrinks

namespace Takes

variable {p q : Scan α}

theorem shrinks (hp : Takes p) : Shrinks p := fun s a r h => Nat.le_of_lt (hp s a r h)

theorem bind {f : α → Scan β} (hp : Takes p) (hf : ∀ a, Shrinks (f a)) : Takes (p >>= f) := by
  intro s b r h
  obtain ⟨a, u, hu, hr⟩ := bind_eq_some h
  exact Nat.lt_of_le_of_lt (hf a u b r hr) (hp s a u hu)

theorem behind {f : α → Scan β} (hp : Shrinks p) (hf : ∀ a, Takes (f a)) : Takes (p >>= f) := by
  intro s b r h
  obtain ⟨a, u, hu, hr⟩ := bind_eq_some h
  exact Nat.lt_of_lt_of_le (hf a u b r hr) (hp s a u hu)

theorem orElse (hp : Takes p) (hq : Takes q) : Takes (p <|> q) := by
  intro s a r h
  rw [orElse_apply, Option.or_eq_some_iff] at h
  rcases h with h | ⟨-, h⟩
  · exact hp s a r h
  · exact hq s a r h

theorem map {f : α → β} (hp : Takes p) : Takes (f <$> p) := by
  intro s b r h
  rw [map_apply, Option.map_eq_some_iff] at h
  obtain ⟨x, hx, heq⟩ := h
  cases heq
  exact hp s _ _ hx

theorem failure : Takes (failure : Scan α) := fun _ _ _ => nofun

theorem char (c : Char) : Takes (char c) := fun _ _ _ h =>
  eq_cons_of_char h ▸ Nat.lt_succ_self _

theorem text {w : String} (hw : w.toList ≠ []) : Takes (text w) := by
  intro s u r h
  rw [eq_append_of_chars h, List.length_append]
  have := List.length_pos_iff.mpr hw
  omega

end Takes

structure First (F : Char → Bool) (p : Scan α) : Prop where
  fails : ∀ {s}, (∀ c r, s = c :: r → F c = false) → p s = none

namespace First

variable {F G : Char → Bool}

theorem cons (h : First F p) {c : Char} (hc : F c = false) : p (c :: r) = none :=
  h.fails (by rintro _ _ ⟨⟩; exact hc)

theorem nil (h : First F p) : p [] = none := h.fails nofun

theorem front (h : First F p) (hs : p s = some (a, r)) : ∃ c s', s = c :: s' ∧ F c = true := by
  cases s with
  | nil => cases h.nil.symm.trans hs
  | cons c s =>
      cases hc : F c with
      | true => exact ⟨c, s, rfl, hc⟩
      | false => cases (h.cons hc).symm.trans hs

theorem imp (h : First F p) (hG : ∀ c, F c = true → G c = true) : First G p where
  fails hs := by
    refine h.fails fun c r hr => ?_
    rw [← Bool.not_eq_true]
    intro hc
    exact Bool.false_ne_true ((hs c r hr).symm.trans (hG c hc))

theorem satisfy : First F (Scan.satisfy F) where
  fails {s} hs := by
    cases s with
    | nil => rfl
    | cons c r => rw [Scan.satisfy, hs c r rfl, if_neg Bool.false_ne_true]

theorem char (c : Char) : First (· == c) (Scan.char c) where
  fails {s} hs := by
    cases s with
    | nil => rfl
    | cons d r => exact if_neg (beq_eq_false_iff_ne.mp (hs d r rfl))

theorem run1 : First F (Scan.run1 F) where
  fails {s} hs := by
    cases s with
    | nil => rfl
    | cons c r => rw [Scan.run1, hs c r rfl, if_neg Bool.false_ne_true]

theorem bind {f : α → Scan β} (h : First F p) : First F (p >>= f) :=
  ⟨fun hs => bind_of_none (h.fails hs)⟩

theorem map {f : α → β} (h : First F p) : First F (f <$> p) := ⟨fun hs => map_of_none (h.fails hs)⟩

theorem orElse (hp : First F p) (hq : First G q) : First (fun c => F c || G c) (p <|> q) where
  fails {s} hs := by
    have hF : ∀ c r, s = c :: r → F c = false := fun c r hr => (Bool.or_eq_false_iff.mp (hs c r hr)).1
    have hG : ∀ c r, s = c :: r → G c = false := fun c r hr => (Bool.or_eq_false_iff.mp (hs c r hr)).2
    rw [orElse_of_none (hp.fails hF), hq.fails hG]

theorem or (hp : First F p) (hq : First F q) : First F (p <|> q) :=
  (hp.orElse hq).imp fun _ h => by rwa [Bool.or_self] at h

theorem failure : First F (failure : Scan α) := ⟨fun _ => rfl⟩

theorem text {w : String} {c : Char} {cs : List Char} (hw : w.toList = c :: cs) :
    First (· == c) (text w) := by
  rw [Scan.text, hw, chars_cons]
  exact (char c).bind

end First

end SmallScript.Scan
