import SmallScript.Proofs.Scan

namespace SmallScript.Scan

variable {α β : Type}

/-- The rests of two texts: tied, and shorter by `k` characters at least. -/
structure Kept (k : Nat) (U : List Char → List Char → Prop) (s t r r' : List Char) : Prop where
  rest : U r r'
  left : r.length + k ≤ s.length
  right : r'.length + k ≤ t.length

/-- Texts that are tied in two ways. -/
structure Both (T L : List Char → List Char → Prop) (s t : List Char) : Prop where
  tied : T s t
  left : L s t

def Follows (k n : Nat) (T U : List Char → List Char → Prop) (p q : Scan α) : Prop :=
  ∀ s t, s.length < n → T s t →
    (p s = none ∧ q t = none) ∨
      ∃ a r r', p s = some (a, r) ∧ q t = some (a, r') ∧ Kept k U s t r r'

namespace Follows

variable {k n m : Nat} {T U V : List Char → List Char → Prop} {p q p' q' : Scan α}

theorem succeeds (h : Follows k n T U p q) {s t r : List Char} {a : α} (hs : s.length < n) (hT : T s t)
    (hp : p s = some (a, r)) : ∃ r', q t = some (a, r') ∧ Kept k U s t r r' := by
  rcases h s t hs hT with ⟨hnone, -⟩ | ⟨b, u, u', hu, hu', hkept⟩
  · cases hnone.symm.trans hp
  · cases hu.symm.trans hp
    exact ⟨u', hu', hkept⟩

theorem fails (h : Follows k n T U p q) {s t : List Char} (hs : s.length < n) (hT : T s t)
    (hp : p s = none) : q t = none := by
  rcases h s t hs hT with ⟨-, hq⟩ | ⟨b, u, u', hu, -, -⟩
  · exact hq
  · cases hp.symm.trans hu

theorem mono (h : Follows k n T U p q) (hm : m ≤ n) : Follows k m T U p q :=
  fun s t hs hT => h s t (Nat.lt_of_lt_of_le hs hm) hT

theorem on (h : Follows k n T U p q) (hV : ∀ s t, V s t → T s t) : Follows k n V U p q :=
  fun s t hs hT => h s t hs (hV s t hT)

theorem imp (h : Follows k n T U p q) (hU : ∀ s t, U s t → V s t) : Follows k n T V p q := by
  intro s t hs hT
  rcases h s t hs hT with hfail | ⟨a, r, r', hp, hq, hrest, hr, hr'⟩
  · exact .inl hfail
  · exact .inr ⟨a, r, r', hp, hq, hU _ _ hrest, hr, hr'⟩

theorem tied (h : Follows k n T (Both U V) p q) : Follows k n T U p q := h.imp fun _ _ h => h.tied

theorem left (h : Follows k n T (Both U V) p q) : Follows k n T V p q := h.imp fun _ _ h => h.left

theorem weaken (h : Follows k n T U p q) : Follows 0 n T U p q := by
  intro s t hs hT
  rcases h s t hs hT with hfail | ⟨a, r, r', hp, hq, hrest, hr, hr'⟩
  · exact .inl hfail
  · exact .inr ⟨a, r, r', hp, hq, hrest, by omega, by omega⟩

theorem pure (a : α) : Follows 0 n T T (pure a) (pure a) :=
  fun s t _ hT => .inr ⟨a, s, t, rfl, rfl, hT, Nat.le_refl _, Nat.le_refl _⟩

theorem failure : Follows k n T U (failure : Scan α) failure := fun _ _ _ _ => .inl ⟨rfl, rfl⟩

/-- The second reader stands behind what the first one took, which counts towards the bound. -/
theorem seq {j : Nat} {f g : α → Scan β} (h : Follows j m T U p q) (hm : m ≤ n + j)
    (hf : ∀ a, Follows k n U V (f a) (g a)) : Follows (j + k) m T V (p >>= f) (q >>= g) := by
  intro s t hs hT
  rw [bind_apply, bind_apply]
  rcases h s t hs hT with ⟨hp, hq⟩ | ⟨a, r, r', hp, hq, hU, hr, hr'⟩
  · exact .inl (by rw [hp, hq]; exact ⟨rfl, rfl⟩)
  · rw [hp, hq]
    rcases hf a r r' (by omega) hU with hfail | ⟨b, u, u', hfu, hgu, hV, hu, hu'⟩
    · exact .inl hfail
    · exact .inr ⟨b, u, u', hfu, hgu, hV, by omega, by omega⟩

theorem bind {j : Nat} {f g : α → Scan β} (h : Follows j n T U p q)
    (hf : ∀ a, Follows k n U V (f a) (g a)) : Follows k n T V (p >>= f) (q >>= g) :=
  Nat.zero_add k ▸ h.weaken.seq (Nat.le_refl n) hf

theorem bindBehind {f g : α → Scan β} (h : Follows 1 (n + 1) T U p q)
    (hf : ∀ a, Follows 0 n U V (f a) (g a)) : Follows 1 (n + 1) T V (p >>= f) (q >>= g) :=
  h.seq (Nat.le_refl (n + 1)) hf

theorem andThen {f g : α → Scan β} (h : Follows 1 n T U p q)
    (hf : ∀ a, Follows 0 n U V (f a) (g a)) : Follows 1 n T V (p >>= f) (q >>= g) :=
  h.seq (Nat.le_succ n) hf

theorem map (f : α → β) (h : Follows k n T U p q) : Follows k n T U (f <$> p) (f <$> q) := by
  intro s t hs hT
  rw [map_apply, map_apply]
  rcases h s t hs hT with ⟨hp, hq⟩ | ⟨a, r, r', hp, hq, hkept⟩
  · exact .inl (by rw [hp, hq]; exact ⟨rfl, rfl⟩)
  · exact .inr ⟨f a, r, r', by rw [hp]; rfl, by rw [hq]; rfl, hkept⟩

theorem orElse (h : Follows k n T U p q) (h' : Follows k n T U p' q') :
    Follows k n T U (p <|> p') (q <|> q') := by
  intro s t hs hT
  rw [orElse_apply, orElse_apply]
  rcases h s t hs hT with ⟨hp, hq⟩ | ⟨a, r, r', hp, hq, hkept⟩
  · rw [hp, hq]
    exact h' s t hs hT
  · exact .inr ⟨a, r, r', by rw [hp]; rfl, by rw [hq]; rfl, hkept⟩

theorem maybeOf (h : Follows k n T U p q) (hU : ∀ s t, T s t → U s t) :
    Follows 0 n T U (Scan.maybe p) (Scan.maybe q) := by
  intro s t hs hT
  rw [maybe_apply, maybe_apply]
  rcases h.weaken s t hs hT with ⟨hp, hq⟩ | ⟨a, r, r', hp, hq, hkept⟩
  · exact .inr ⟨none, s, t, by rw [hp], by rw [hq], hU s t hT, Nat.le_refl _, Nat.le_refl _⟩
  · exact .inr ⟨some a, r, r', by rw [hp], by rw [hq], hkept⟩

theorem maybe (h : Follows k n T T p q) : Follows 0 n T T (maybe p) (maybe q) :=
  h.maybeOf fun _ _ h => h

/-- However long the two repetitions may go on, they do so equally often. -/
theorem upTo (h : Follows 1 n T T p q) {i j : Nat} {s t : List Char} (hs : s.length < n)
    (hT : T s t) (hi : s.length ≤ i) (hj : t.length ≤ j) :
    ∃ as r r', upTo p i s = (as, r) ∧ upTo q j t = (as, r') ∧ Kept 0 T s t r r' := by
  induction i generalizing j s t with
  | zero =>
      refine ⟨[], s, t, rfl, ?_, hT, Nat.le_refl _, Nat.le_refl _⟩
      rcases h s t hs hT with ⟨hp, hq⟩ | ⟨a, r, r', hp, hq, hU, hr, hr'⟩
      · cases j <;> simp only [Scan.upTo, hq]
      · omega
  | succ i ih =>
      rcases h s t hs hT with ⟨hp, hq⟩ | ⟨a, r, r', hp, hq, hU, hr, hr'⟩
      · refine ⟨[], s, t, by rw [Scan.upTo, hp], ?_, hT, Nat.le_refl _, Nat.le_refl _⟩
        cases j <;> simp only [Scan.upTo, hq]
      · cases j with
        | zero => omega
        | succ j =>
            obtain ⟨as, u, u', hpu, hqu, hrest, hu, hu'⟩ :=
              ih (j := j) (by omega) hU (by omega) (by omega)
            refine ⟨a :: as, u, u', ?_, ?_, hrest, by omega, by omega⟩
            · simp only [Scan.upTo, hp, hpu]
            · simp only [Scan.upTo, hq, hqu]

theorem many (h : Follows 1 n T T p q) : Follows 0 n T T (many p) (many q) := by
  intro s t hs hT
  refine .inr ?_
  simp only [Scan.many, repeated, Option.some.injEq]
  rcases h s t hs hT with ⟨hp, hq⟩ | ⟨a, r, r', hp, hq, hU, hr, hr'⟩
  · exact ⟨[], s, t, by rw [hp], by rw [hq], hT, Nat.le_refl _, Nat.le_refl _⟩
  · obtain ⟨as, u, u', hpu, hqu, hrest, hu, hu'⟩ :=
      h.upTo (i := r.length) (j := r'.length) (by omega) hU (Nat.le_refl _) (Nat.le_refl _)
    refine ⟨a :: as, u, u', ?_, ?_, hrest, by omega, by omega⟩
    · simp only [hp, hpu]
    · simp only [hq, hqu]

theorem sepBy {c c' : Scan Unit} (h : Follows 1 n T T p q) (hc : Follows 1 n T T c c') :
    Follows 0 n T T (sepBy p c) (sepBy q c') := by
  refine h.maybe.bind fun first => ?_
  cases first with
  | none => exact pure []
  | some a => exact (many (hc.bind fun _ => h)).bind fun rest => pure (a :: rest)

end Follows

/-- Both texts start with one character of the class `p`, behind which they are tied by `U`; or
neither starts with one. -/
def Agree (p : Char → Bool) (U : List Char → List Char → Prop) (s t : List Char) : Prop :=
  (∃ c r r', p c = true ∧ s = c :: r ∧ t = c :: r' ∧ U r r') ∨
    (∀ c r, s = c :: r → p c = false) ∧ ∀ c r, t = c :: r → p c = false

namespace Follows

variable {n : Nat} {T U : List Char → List Char → Prop} {p : Char → Bool}

theorem satisfy (h : ∀ s t, T s t → Agree p U s t) : Follows 1 n T U (satisfy p) (satisfy p) := by
  have hfail (s : List Char) (hs : ∀ c r, s = c :: r → p c = false) : Scan.satisfy p s = none := by
    cases s with
    | nil => rfl
    | cons c r => rw [Scan.satisfy, hs c r rfl, if_neg Bool.false_ne_true]
  intro s t _ hT
  rcases h s t hT with ⟨c, r, r', hc, rfl, rfl, hU⟩ | ⟨hs, ht⟩
  · exact .inr ⟨c, r, r', if_pos hc, if_pos hc, hU, Nat.le_refl _, Nat.le_refl _⟩
  · exact .inl ⟨hfail s hs, hfail t ht⟩

theorem notNextOf (h : ∀ s t, T s t → Agree p U s t) :
    Follows 0 n T (fun s t => T s t ∧ ∀ c ∈ s.head?, p c = false) (notNext p) (notNext p) := by
  have hnext {s : List Char} (hs : ∀ c r, s = c :: r → p c = false) :
      Scan.notNext p s = some ((), s) := by
    cases s with
    | nil => rfl
    | cons c r => rw [Scan.notNext, hs c r rfl, if_neg Bool.false_ne_true]
  intro s t _ hT
  rcases h s t hT with ⟨c, r, r', hc, rfl, rfl, -⟩ | ⟨hs, ht⟩
  · exact .inl ⟨if_pos hc, if_pos hc⟩
  · have hhead : ∀ c ∈ s.head?, p c = false := by
      intro c hc
      obtain ⟨r, rfl⟩ := List.head?_eq_some_iff.mp hc
      exact hs c r rfl
    exact .inr ⟨(), s, t, hnext hs, hnext ht, ⟨hT, hhead⟩, Nat.le_refl _, Nat.le_refl _⟩

theorem notNext (h : ∀ s t, T s t → Agree p U s t) : Follows 0 n T T (notNext p) (notNext p) :=
  (notNextOf h).imp fun _ _ h => h.1

theorem char {c : Char} (h : ∀ s t, T s t → Agree (· == c) U s t) :
    Follows 1 n T U (Scan.char c) (Scan.char c) := by
  have hchar : Scan.char c = (do let _ ← Scan.satisfy (· == c)) := by
    funext s
    cases s with
    | nil => rfl
    | cons d r =>
        rw [bind_apply, Scan.char, Scan.satisfy]
        by_cases hd : d = c
        · subst hd
          rw [if_pos rfl, if_pos (beq_self_eq_true d)]
          rfl
        · rw [if_neg hd, if_neg (by simpa using hd)]
          rfl
  rw [hchar]
  exact (satisfy h).andThen fun _ => .pure ()

theorem run (h : ∀ s t, T s t → Agree p T s t) : Follows 0 n T T (run p) (run p) := by
  have hstop (s : List Char) (hs : ∀ c r, s = c :: r → p c = false) :
      Scan.run p s = some ([], s) := by
    cases s with
    | nil => rfl
    | cons c r => rw [Scan.run, List.takeWhile_cons, List.dropWhile_cons, hs c r rfl]; rfl
  intro s t hs hT
  refine .inr ?_
  induction s generalizing t with
  | nil =>
      rcases h [] t hT with ⟨c, r, r', hc, hs', -⟩ | ⟨hs', ht⟩
      · cases hs'
      · exact ⟨[], [], t, rfl, hstop t ht, hT, Nat.le_refl _, Nat.le_refl _⟩
  | cons c s ih =>
      rcases h (c :: s) t hT with ⟨c', r, r', hc, hs', rfl, hU⟩ | ⟨hs', ht⟩
      · cases hs'
        obtain ⟨as, u, u', hu, hu', hrest, hleft, hright⟩ :=
          ih r' (Nat.lt_of_succ_lt hs) hU
        simp only [Scan.run, Option.some.injEq, Prod.mk.injEq] at hu hu'
        refine ⟨c :: as, u, u', ?_, ?_, hrest, ?_, ?_⟩
        · simp only [Scan.run, List.takeWhile_cons, List.dropWhile_cons, hc, hu, ↓reduceIte]
        · simp only [Scan.run, List.takeWhile_cons, List.dropWhile_cons, hc, hu', ↓reduceIte]
        · exact Nat.le_trans hleft (Nat.le_succ _)
        · exact Nat.le_trans hright (Nat.le_succ _)
      · exact ⟨[], c :: s, t, hstop _ hs', hstop t ht, hT, Nat.le_refl _, Nat.le_refl _⟩

theorem run1 (h : ∀ s t, T s t → Agree p T s t) : Follows 1 n T T (run1 p) (run1 p) := by
  rw [run1_eq]
  exact (satisfy h).andThen fun c => (run h).bind fun cs => .pure _

end Follows

end SmallScript.Scan
