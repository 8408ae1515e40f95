import SmallScript.Proofs.Lockstep
import SmallScript.Proofs.Repetition

namespace SmallScript.Scan

variable {α β γ : Type} {k : List Char} {E E' : List Char → Prop} {i j m n : Nat}
  {T U V : List Char → List Char → Prop} {p q : Scan α}

/-- What is left of the whole text is less than `k`, or something that `E` speaks of. -/
def Lost (k : List Char) (E : List Char → Prop) (r : List Char) : Prop := r.length < k.length ∨ E r

def Nowhere (_ : List Char) : Prop := False

/-- From where it is lost a reader does not come back. -/
def Strays (k : List Char) (E : List Char → Prop) (p : Scan α) : Prop :=
  ∀ s a r, Lost k E s → p s = some (a, r) → Lost k E r

def Drifts (k : List Char) (E E' : List Char → Prop) (p : Scan α) : Prop :=
  ∀ s, Lost k E s → ∃ a r, p s = some (a, r) ∧ Lost k E' r

/-- Where it does not go in lockstep, the reader fails on the cut text. -/
structure Strict (k : List Char) (j n : Nat) (T U : List Char → List Char → Prop) (p : Scan α) :
    Prop where
  shrinks : Shrinks p
  reads : ∀ s t, s.length < n → T s t →
    (p s = none ∧ ∀ a r, p t = some (a, r) → r.length < k.length) ∨
      ∃ a r r', p s = some (a, r) ∧ p t = some (a, r') ∧ Kept j U s t r r'

/-- Where it does not go in lockstep, the reader is lost in the whole text. -/
structure Loose (k : List Char) (E : List Char → Prop) (n : Nat)
    (T U : List Char → List Char → Prop) (p : Scan α) : Prop where
  shrinks : Shrinks p
  reads : ∀ s t, s.length < n → T s t →
    (p s = none ∧ p t = none) ∨ (∃ a r, p t = some (a, r) ∧ Lost k E r) ∨
      ∃ a r r', p s = some (a, r) ∧ p t = some (a, r') ∧ Kept 0 U s t r r'

/-- What is read of the whole text is read of the cut one, unless the reader is lost. -/
structure Keeps (k : List Char) (E : List Char → Prop) (n : Nat)
    (T U : List Char → List Char → Prop) (p : Scan α) : Prop where
  shrinks : Shrinks p
  reads : ∀ s t, s.length < n → T s t → ∀ a r', p t = some (a, r') →
    Lost k E r' ∨ ∃ r, p s = some (a, r) ∧ Kept 0 U s t r r'

theorem Kept.imp {s t r r' : List Char} (h : Kept j U s t r r') (hU : ∀ s t, U s t → V s t)
    (hj : i ≤ j) : Kept i V s t r r' :=
  ⟨hU _ _ h.rest, by have := h.left; omega, by have := h.right; omega⟩

theorem Kept.trans {s t u u' r r' : List Char} (h : Kept i T s t u u') (h' : Kept j U u u' r r') :
    Kept (i + j) U s t r r' :=
  ⟨h'.rest, by have := h.left; have := h'.left; omega, by have := h.right; have := h'.right; omega⟩

theorem Kept.behind {s t u u' r r' : List Char} (h : Kept i T s t u u') (h' : Kept j U u u' r r') :
    Kept 0 U s t r r' :=
  (h.trans h').imp (fun _ _ h => h) (Nat.zero_le _)

namespace Strays

theorem of_shrinks (h : Shrinks p) (hE : ∀ r, E r → p r = none) : Strays k E p := by
  rintro s a r (hs | hs) hr
  · exact .inl (Nat.lt_of_le_of_lt (h s a r hr) hs)
  · cases (hE s hs).symm.trans hr

theorem nowhere (h : Shrinks p) : Strays k Nowhere p := of_shrinks h fun _ => nofun

end Strays

namespace Drifts

theorem pure (a : α) : Drifts k E E (pure a : Scan α) := fun s hs => ⟨a, s, rfl, hs⟩

theorem bindPure {f : α → β} (hp : Drifts k E E' p) :
    Drifts k E E' (do let a ← p; return f a) := by
  intro s hs
  obtain ⟨a, r, hr, hlost⟩ := hp s hs
  exact ⟨f a, r, by rw [bind_of_some hr]; rfl, hlost⟩

theorem nowhere (hp : Shrinks p) (htotal : ∀ s, p s ≠ none) : Drifts k Nowhere E p := by
  rintro s (hs | hs)
  · obtain ⟨x, hx⟩ := Option.ne_none_iff_exists'.mp (htotal s)
    exact ⟨x.1, x.2, hx, .inl (Nat.lt_of_le_of_lt (hp s _ _ hx) hs)⟩
  · exact hs.elim

theorem maybe (hp : Strays k E p) : Drifts k E E (maybe p) := by
  intro s hs
  cases hread : p s with
  | none => exact ⟨none, s, maybe_of_none hread, hs⟩
  | some x => exact ⟨some x.1, x.2, maybe_of_some hread, hp s _ _ hs hread⟩

theorem upTo (hp : Strays k E p) (i : Nat) {s : List Char} (hs : Lost k E s) :
    Lost k E (Scan.upTo p i s).2 := by
  induction i generalizing s with
  | zero => exact hs
  | succ i ih =>
      cases hread : p s with
      | none => simpa only [Scan.upTo, hread] using hs
      | some x =>
          simp only [Scan.upTo, hread]
          exact ih (hp s _ _ hs hread)

theorem many (hp : Strays k E p) : Drifts k E E (many p) := by
  intro s hs
  simp only [Scan.many, repeated]
  cases hread : p s with
  | none => exact ⟨[], s, rfl, hs⟩
  | some x => exact ⟨_, _, rfl, upTo hp _ (hp s _ _ hs hread)⟩

end Drifts

namespace Strict

theorem of_follows (h : Follows j n T U p p) (hp : Shrinks p) : Strict k j n T U p where
  shrinks := hp
  reads s t hs hT := by
    rcases h s t hs hT with ⟨hps, hpt⟩ | hread
    · exact .inl ⟨hps, fun a r hr => by cases hpt.symm.trans hr⟩
    · exact .inr hread

theorem pure (a : α) : Strict k 0 n T T (pure a : Scan α) := of_follows (.pure a) (.pure a)

theorem on (h : Strict k j n T U p) (hV : ∀ s t, V s t → T s t) : Strict k j n V U p :=
  ⟨h.shrinks, fun s t hs hT => h.reads s t hs (hV s t hT)⟩

theorem imp (h : Strict k j n T U p) (hU : ∀ s t, U s t → V s t) (hi : i ≤ j) :
    Strict k i n T V p where
  shrinks := h.shrinks
  reads s t hs hT := (h.reads s t hs hT).imp_right fun ⟨a, r, r', hr, hr', hkept⟩ =>
    ⟨a, r, r', hr, hr', hkept.imp hU hi⟩

theorem weaken (h : Strict k j n T U p) : Strict k 0 n T U p := h.imp (fun _ _ h => h) (Nat.zero_le j)

theorem seq {f : α → Scan β} (h : Strict k i m T U p) (hm : m ≤ n + i)
    (hf : ∀ a, Strict k j n U V (f a)) : Strict k (i + j) m T V (p >>= f) where
  shrinks := h.shrinks.bind fun a => (hf a).shrinks
  reads s t hs hT := by
    rcases h.reads s t hs hT with ⟨hps, hpt⟩ | ⟨a, u, u', hu, hu', hkept⟩
    · refine .inl ⟨bind_of_none hps, fun b r hr => ?_⟩
      obtain ⟨a, u, hu, hr⟩ := bind_eq_some hr
      exact Nat.lt_of_le_of_lt ((hf a).shrinks u b r hr) (hpt a u hu)
    · rw [bind_of_some hu, bind_of_some hu']
      rcases (hf a).reads u u' (by have := hkept.left; omega) hkept.rest with
        hfail | ⟨b, r, r', hr, hr', hkept'⟩
      · exact .inl hfail
      · exact .inr ⟨b, r, r', hr, hr', hkept.trans hkept'⟩

theorem bind {f : α → Scan β} (h : Strict k i n T U p) (hf : ∀ a, Strict k j n U V (f a)) :
    Strict k j n T V (p >>= f) :=
  Nat.zero_add j ▸ h.weaken.seq (Nat.le_refl n) hf

theorem andThen {f : α → Scan β} (h : Strict k 1 n T U p) (hf : ∀ a, Strict k 0 n U V (f a)) :
    Strict k 1 n T V (p >>= f) :=
  h.seq (Nat.le_succ n) hf

/-- Where a part that may be left out leads the reader astray, it fails on the cut text without. -/
theorem maybeBind {f : Option α → Scan β} (h : Strict k 0 n T T p)
    (hf : ∀ a, Strict k 0 n T U (f a))
    (hnone : ∀ s t, s.length < n → T s t → p s = none → p t ≠ none → f none s = none) :
    Strict k 0 n T U (do let a ← maybe p; f a) where
  shrinks := h.shrinks.maybe.bind fun a => (hf a).shrinks
  reads s t hs hT := by
    rcases h.reads s t hs hT with ⟨hps, hpt⟩ | ⟨a, u, u', hu, hu', hkept⟩
    · rw [bind_of_some (maybe_of_none hps)]
      cases hread : p t with
      | none =>
          rw [bind_of_some (maybe_of_none hread)]
          exact (hf none).reads s t hs hT
      | some x =>
          rw [bind_of_some (maybe_of_some hread)]
          have hlost := hnone s t hs hT hps (by rw [hread]; exact nofun)
          exact .inl ⟨hlost, fun b r hr =>
            Nat.lt_of_le_of_lt ((hf (some x.1)).shrinks x.2 b r hr) (hpt _ _ hread)⟩
    · rw [bind_of_some (maybe_of_some hu), bind_of_some (maybe_of_some hu')]
      rcases (hf (some a)).reads u u' (by have := hkept.left; omega) hkept.rest with
        hfail | ⟨b, r, r', hr, hr', hkept'⟩
      · exact .inl hfail
      · exact .inr ⟨b, r, r', hr, hr', hkept.trans hkept'⟩

theorem loose (h : Strict k j n T U p) : Loose k E n T U p where
  shrinks := h.shrinks
  reads s t hs hT := by
    rcases h.weaken.reads s t hs hT with ⟨hps, hpt⟩ | hread
    · cases hread : p t with
      | none => exact .inl ⟨hps, rfl⟩
      | some x => exact .inr (.inl ⟨x.1, x.2, rfl, .inl (hpt _ _ hread)⟩)
    · exact .inr (.inr hread)

theorem seqLoose {f : α → Scan β} (h : Strict k i m T U p) (hm : m ≤ n + i)
    (hf : ∀ a, Loose k E n U V (f a)) : Loose k E m T V (p >>= f) where
  shrinks := h.shrinks.bind fun a => (hf a).shrinks
  reads s t hs hT := by
    rcases h.reads s t hs hT with ⟨hps, hpt⟩ | ⟨a, u, u', hu, hu', hkept⟩
    · rw [bind_of_none hps]
      cases hread : (p >>= f) t with
      | none => exact .inl ⟨rfl, rfl⟩
      | some x =>
          obtain ⟨a, u, hu, hr⟩ := bind_eq_some hread
          exact .inr (.inl ⟨x.1, x.2, rfl,
            .inl (Nat.lt_of_le_of_lt ((hf a).shrinks u _ _ hr) (hpt a u hu))⟩)
    · rw [bind_of_some hu, bind_of_some hu']
      rcases (hf a).reads u u' (by have := hkept.left; omega) hkept.rest with
        hfail | hlost | ⟨b, r, r', hr, hr', hkept'⟩
      · exact .inl hfail
      · exact .inr (.inl hlost)
      · exact .inr (.inr ⟨b, r, r', hr, hr', hkept.behind hkept'⟩)

theorem bindLoose {f : α → Scan β} (h : Strict k i n T U p) (hf : ∀ a, Loose k E n U V (f a)) :
    Loose k E n T V (p >>= f) :=
  h.seqLoose (Nat.le_add_right n i) hf

theorem bindBehindLoose {f : α → Scan β} (h : Strict k 1 (n + 1) T U p)
    (hf : ∀ a, Loose k E n U V (f a)) : Loose k E (n + 1) T V (p >>= f) :=
  h.seqLoose (Nat.le_refl (n + 1)) hf

theorem seqKeeps {f : α → Scan β} (h : Strict k i m T U p) (hm : m ≤ n + i)
    (hf : ∀ a, Keeps k E n U V (f a)) : Keeps k E m T V (p >>= f) where
  shrinks := h.shrinks.bind fun a => (hf a).shrinks
  reads s t hs hT b r' hr := by
    rcases h.reads s t hs hT with ⟨hps, hpt⟩ | ⟨a, u, u', hu, hu', hkept⟩
    · obtain ⟨a, u, hu, hr⟩ := bind_eq_some hr
      exact .inl (.inl (Nat.lt_of_le_of_lt ((hf a).shrinks u b r' hr) (hpt a u hu)))
    · rw [bind_of_some hu'] at hr
      rw [bind_of_some hu]
      rcases (hf a).reads u u' (by have := hkept.left; omega) hkept.rest b r' hr with
        hlost | ⟨r, hr, hkept'⟩
      · exact .inl hlost
      · exact .inr ⟨r, hr, hkept.behind hkept'⟩

theorem bindKeeps {f : α → Scan β} (h : Strict k i n T U p) (hf : ∀ a, Keeps k E n U V (f a)) :
    Keeps k E n T V (p >>= f) :=
  h.seqKeeps (Nat.le_add_right n i) hf

theorem bindBehindKeeps {f : α → Scan β} (h : Strict k 1 (n + 1) T U p)
    (hf : ∀ a, Keeps k E n U V (f a)) : Keeps k E (n + 1) T V (p >>= f) :=
  h.seqKeeps (Nat.le_refl (n + 1)) hf

end Strict

namespace Loose

theorem pure (a : α) : Loose k E n T T (pure a : Scan α) := (Strict.pure a).loose

theorem imp (h : Loose k E n T U p) (hE : ∀ r, E r → E' r) : Loose k E' n T U p where
  shrinks := h.shrinks
  reads s t hs hT := (h.reads s t hs hT).imp_right fun hread =>
    hread.imp_left fun ⟨a, r, hr, hlost⟩ => ⟨a, r, hr, hlost.imp_right (hE r)⟩

theorem on (h : Loose k E n T U p) (hV : ∀ s t, V s t → T s t) : Loose k E n V U p :=
  ⟨h.shrinks, fun s t hs hT => h.reads s t hs (hV s t hT)⟩

theorem bind {f : α → Scan β} (h : Loose k E n T U p) (hf : ∀ a, Loose k E' n U V (f a))
    (hdrifts : ∀ a, Drifts k E E' (f a)) : Loose k E' n T V (p >>= f) where
  shrinks := h.shrinks.bind fun a => (hf a).shrinks
  reads s t hs hT := by
    rcases h.reads s t hs hT with ⟨hps, hpt⟩ | ⟨a, u, hu, hlost⟩ | ⟨a, u, u', hu, hu', hkept⟩
    · exact .inl ⟨bind_of_none hps, bind_of_none hpt⟩
    · rw [bind_of_some hu]
      exact .inr (.inl (hdrifts a u hlost))
    · rw [bind_of_some hu, bind_of_some hu']
      rcases (hf a).reads u u' (by have := hkept.left; omega) hkept.rest with
        hfail | hlost | ⟨b, r, r', hr, hr', hkept'⟩
      · exact .inl hfail
      · exact .inr (.inl hlost)
      · exact .inr (.inr ⟨b, r, r', hr, hr', hkept.behind hkept'⟩)

theorem bindPure {f : α → β} (h : Loose k E n T U p) :
    Loose k E n T U (do let a ← p; return f a) :=
  h.bind (fun a => .pure (f a)) fun a => .pure (f a)

theorem orElse (h : Loose k E n T U p) (h' : Loose k E n T U q) : Loose k E n T U (p <|> q) where
  shrinks := h.shrinks.orElse h'.shrinks
  reads s t hs hT := by
    rw [orElse_apply, orElse_apply]
    rcases h.reads s t hs hT with ⟨hps, hpt⟩ | ⟨a, r, hr, hlost⟩ | ⟨a, r, r', hr, hr', hkept⟩
    · rw [hps, hpt]
      exact h'.reads s t hs hT
    · rw [hr]
      exact .inr (.inl ⟨a, r, rfl, hlost⟩)
    · rw [hr, hr']
      exact .inr (.inr ⟨a, r, r', rfl, rfl, hkept⟩)

theorem map {f : α → β} (h : Loose k E n T U p) : Loose k E n T U (f <$> p) where
  shrinks := h.shrinks.map
  reads s t hs hT := by
    rcases h.reads s t hs hT with ⟨hps, hpt⟩ | ⟨a, r, hr, hlost⟩ | ⟨a, r, r', hr, hr', hkept⟩
    · exact .inl ⟨map_of_none hps, map_of_none hpt⟩
    · exact .inr (.inl ⟨f a, r, map_of_some hr, hlost⟩)
    · exact .inr (.inr ⟨f a, r, r', map_of_some hr, map_of_some hr', hkept⟩)

theorem maybe (h : Loose k E n T T p) : Loose k E n T T (maybe p) where
  shrinks := h.shrinks.maybe
  reads s t hs hT := by
    rcases h.reads s t hs hT with ⟨hps, hpt⟩ | ⟨a, r, hr, hlost⟩ | ⟨a, r, r', hr, hr', hkept⟩
    · exact .inr (.inr ⟨none, s, t, maybe_of_none hps, maybe_of_none hpt, hT, Nat.le_refl _,
        Nat.le_refl _⟩)
    · exact .inr (.inl ⟨some a, r, maybe_of_some hr, hlost⟩)
    · exact .inr (.inr ⟨some a, r, r', maybe_of_some hr, maybe_of_some hr', hkept⟩)

theorem many (h : Loose k E n T T p) (htakes : Takes p) (hstrays : Strays k E p) :
    Loose k E n T T (many p) where
  shrinks := h.shrinks.many
  reads s t hs hT := by
    induction hl : s.length using Nat.strongRecOn generalizing s t with
    | ind l ih =>
      subst hl
      rcases h.reads s t hs hT with ⟨hps, hpt⟩ | ⟨a, u, hu, hlost⟩ | ⟨a, u, u', hu, hu', hkept⟩
      · exact .inr (.inr ⟨[], s, t, many_of_none hps, many_of_none hpt, hT, Nat.le_refl _,
          Nat.le_refl _⟩)
      · obtain ⟨as, r, hr, hlost⟩ := Drifts.many hstrays u hlost
        exact .inr (.inl ⟨a :: as, r, by rw [many_of_some htakes hu, hr]; rfl, hlost⟩)
      · have hlength := htakes s a u hu
        rw [many_of_some htakes hu, many_of_some htakes hu']
        rcases ih u.length hlength u u' (by omega) hkept.rest rfl with
          ⟨hru, hru'⟩ | ⟨as, r, hr, hlost⟩ | ⟨as, r, r', hr, hr', hkept'⟩
        · exact .inl ⟨by rw [hru]; rfl, by rw [hru']; rfl⟩
        · exact .inr (.inl ⟨a :: as, r, by rw [hr]; rfl, hlost⟩)
        · exact .inr (.inr ⟨a :: as, r, r', by rw [hr]; rfl, by rw [hr']; rfl,
            hkept.behind hkept'⟩)

theorem bindTwo {f : α → β → Scan γ} (h : Loose k E n T U p) {q : Scan β}
    (hq : Loose k E' n U V q) (hdrifts : Drifts k E E' q) (hf : ∀ a b, ∃ x, f a b = Pure.pure x) :
    Loose k E' n T V (do let a ← p; let b ← q; f a b) := by
  have hread (a : α) : ∃ x : β → γ, f a = fun b => Pure.pure (x b) :=
    ⟨fun b => (hf a b).choose, funext fun b => (hf a b).choose_spec⟩
  refine h.bind (fun a => ?_) fun a => ?_ <;> obtain ⟨x, hx⟩ := hread a <;> rw [hx]
  · exact hq.bindPure
  · exact hdrifts.bindPure

theorem bindMaybe {f : α → Option β → Scan γ} (h : Loose k E n T U p) {q : Scan β}
    (hq : Loose k E n U U q) (hstrays : Strays k E q) (hf : ∀ a b, ∃ x, f a b = Pure.pure x) :
    Loose k E n T U (do let a ← p; let b ← Scan.maybe q; f a b) :=
  h.bindTwo hq.maybe (.maybe hstrays) hf

theorem bindMany {f : α → List β → γ} (h : Loose k E n T U p) {q : Scan β}
    (hq : Loose k E n U U q) (htakes : Takes q) (hstrays : Strays k E q) :
    Loose k E n T U (do let a ← p; let bs ← Scan.many q; return f a bs) :=
  h.bindTwo (hq.many htakes hstrays) (.many hstrays) fun _ _ => ⟨_, rfl⟩

theorem maybeBind {f : Option α → Scan β} (h : Loose k E n T T p)
    (hf : ∀ a, Loose k E n T U (f a)) (hdrifts : ∀ a, Drifts k E E (f (some a))) :
    Loose k E n T U (do let a ← Scan.maybe p; f a) where
  shrinks := h.shrinks.maybe.bind fun a => (hf a).shrinks
  reads s t hs hT := by
    rcases h.reads s t hs hT with ⟨hps, hpt⟩ | ⟨a, u, hu, hlost⟩ | ⟨a, u, u', hu, hu', hkept⟩
    · rw [bind_of_some (maybe_of_none hps), bind_of_some (maybe_of_none hpt)]
      exact (hf none).reads s t hs hT
    · rw [bind_of_some (f := f) (maybe_of_some hu)]
      exact .inr (.inl (hdrifts a u hlost))
    · rw [bind_of_some (maybe_of_some hu), bind_of_some (maybe_of_some hu')]
      rcases (hf (some a)).reads u u' (by have := hkept.left; omega) hkept.rest with
        hfail | hlost | ⟨b, r, r', hr, hr', hkept'⟩
      · exact .inl hfail
      · exact .inr (.inl hlost)
      · exact .inr (.inr ⟨b, r, r', hr, hr', hkept.behind hkept'⟩)

theorem keeps (h : Loose k E n T U p) : Keeps k E n T U p where
  shrinks := h.shrinks
  reads s t hs hT a r' hr := by
    rcases h.reads s t hs hT with ⟨-, hpt⟩ | ⟨b, u, hu, hlost⟩ | ⟨b, u, u', hu, hu', hkept⟩
    · cases hpt.symm.trans hr
    · cases hu.symm.trans hr
      exact .inl hlost
    · cases hu'.symm.trans hr
      exact .inr ⟨u, hu, hkept⟩

theorem orKeeps (h : Loose k E n T U p) (h' : Keeps k E n T U q) : Keeps k E n T U (p <|> q) where
  shrinks := h.shrinks.orElse h'.shrinks
  reads s t hs hT a r' hr := by
    rw [orElse_apply] at hr ⊢
    rcases h.reads s t hs hT with ⟨hps, hpt⟩ | ⟨b, u, hu, hlost⟩ | ⟨b, u, u', hu, hu', hkept⟩
    · rw [hpt, Option.none_or] at hr
      rw [hps, Option.none_or]
      exact h'.reads s t hs hT a r' hr
    · rw [hu, Option.some_or] at hr
      cases hr
      exact .inl hlost
    · rw [hu', Option.some_or] at hr
      cases hr
      exact .inr ⟨u, by rw [hu, Option.some_or], hkept⟩

end Loose

namespace Keeps

theorem imp (h : Keeps k E n T U p) (hE : ∀ r, E r → E' r) : Keeps k E' n T U p :=
  ⟨h.shrinks, fun s t hs hT a r' hr => (h.reads s t hs hT a r' hr).imp_left fun hlost =>
    hlost.imp_right (hE r')⟩

theorem bind {f : α → Scan β} (h : Keeps k E n T U p) (hf : ∀ a, Keeps k E n U V (f a))
    (hstrays : ∀ a, Strays k E (f a)) : Keeps k E n T V (p >>= f) where
  shrinks := h.shrinks.bind fun a => (hf a).shrinks
  reads s t hs hT b r' hr := by
    obtain ⟨a, u', hu', hr⟩ := bind_eq_some hr
    rcases h.reads s t hs hT a u' hu' with hlost | ⟨u, hu, hkept⟩
    · exact .inl (hstrays a u' b r' hlost hr)
    · rw [bind_of_some hu]
      rcases (hf a).reads u u' (by have := hkept.left; omega) hkept.rest b r' hr with
        hlost | ⟨r, hr, hkept'⟩
      · exact .inl hlost
      · exact .inr ⟨r, hr, hkept.behind hkept'⟩

theorem bindPure {f : α → β} (h : Keeps k E n T U p) :
    Keeps k E n T U (do let a ← p; return f a) :=
  h.bind (fun a => (Loose.pure (f a)).keeps) fun a s b r hs hr => by cases hr; exact hs

end Keeps

end SmallScript.Scan
