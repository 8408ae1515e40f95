import SmallScript.Proofs.Repetition

namespace SmallScript.Scan

variable {α β : Type}

/-- On texts of the kind `P` the reader takes `a` and leaves a text of the kind `Q`. -/
def Gives (P : List Char → Prop) (p : Scan α) (a : α) (Q : List Char → Prop) : Prop :=
  ∀ s, P s → ∃ r, p s = some (a, r) ∧ Q r

def Refuses (P : List Char → Prop) (p : Scan α) : Prop := ∀ s, P s → p s = none

variable {P Q R : List Char → Prop} {p q : Scan α} {a : α} {b : β}

namespace Refuses

theorem bind {f : α → Scan β} (h : Refuses P p) : Refuses P (p >>= f) :=
  fun s hs => bind_of_none (h s hs)

theorem map {f : α → β} (h : Refuses P p) : Refuses P (f <$> p) :=
  fun s hs => map_of_none (h s hs)

theorem orElse (hp : Refuses P p) (hq : Refuses P q) : Refuses P (p <|> q) :=
  fun s hs => (orElse_of_none (hp s hs)).trans (hq s hs)

end Refuses

namespace Gives

theorem imp (h : Gives P p a Q) (hQ : ∀ r, Q r → R r) : Gives P p a R := by
  intro s hs
  obtain ⟨r, hr, hQr⟩ := h s hs
  exact ⟨r, hr, hQ r hQr⟩

theorem pure (a : α) : Gives P (pure a) a P := fun s hs => ⟨s, rfl, hs⟩

theorem bind {f : α → Scan β} (h : Gives P p a Q) (hf : Gives Q (f a) b R) :
    Gives P (p >>= f) b R := by
  intro s hs
  obtain ⟨r, hr, hQ⟩ := h s hs
  rw [bind_of_some hr]
  exact hf r hQ

theorem map {f : α → β} (h : Gives P p a Q) : Gives P (f <$> p) (f a) Q := by
  intro s hs
  obtain ⟨r, hr, hQ⟩ := h s hs
  exact ⟨r, map_of_some hr, hQ⟩

theorem left (h : Gives P p a Q) : Gives P (p <|> q) a Q := by
  intro s hs
  obtain ⟨r, hr, hQ⟩ := h s hs
  exact ⟨r, orElse_of_some hr, hQ⟩

theorem right (hp : Refuses P p) (hq : Gives P q a Q) : Gives P (p <|> q) a Q := by
  intro s hs
  rw [orElse_of_none (hp s hs)]
  exact hq s hs

theorem refuses {f : α → Scan β} (h : Gives P p a Q) (hf : Refuses Q (f a)) :
    Refuses P (p >>= f) := by
  intro s hs
  obtain ⟨r, hr, hQ⟩ := h s hs
  rw [bind_of_some hr]
  exact hf r hQ

theorem maybe (h : Gives P p a Q) : Gives P (maybe p) (some a) Q := by
  intro s hs
  obtain ⟨r, hr, hQ⟩ := h s hs
  exact ⟨r, maybe_of_some hr, hQ⟩

theorem nothing (h : Refuses P p) : Gives P (Scan.maybe p) none P :=
  fun s hs => ⟨s, maybe_of_none (h s hs), hs⟩

theorem done (h : Refuses P p) : Gives P (many p) [] P :=
  fun s hs => ⟨s, many_of_none (h s hs), hs⟩

theorem many {as : List α} (hp : Takes p) (h : Gives P p a Q) (hq : Gives Q (many p) as R) :
    Gives P (many p) (a :: as) R := by
  intro s hs
  obtain ⟨r, hr, hQ⟩ := h s hs
  obtain ⟨u, hu, hR⟩ := hq r hQ
  exact ⟨u, by rw [many_of_some hp hr, hu]; rfl, hR⟩

end Gives

end SmallScript.Scan
