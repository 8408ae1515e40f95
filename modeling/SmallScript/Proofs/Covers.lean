import SmallScript.Proofs.Repetition

namespace SmallScript.Scan

variable {α β γ : Type} {F G : Char → Bool} {p q : Scan α} {t t' u r : List Char} {a : α}

/-- What is read in front of `u`, and the rest: maybe more is taken, but not what was to be read
in front of `u`, and nothing more in front of a character outside `F`. -/
structure Reach (F : Char → Bool) (u : List Char) (a : α) (b : α) (r : List Char) : Prop where
  short : r.length ≤ u.length
  same : r.length = u.length → b = a
  stop : (∀ c v, u = c :: v → F c = false) → r = u

/-- Whatever follows `t`, the reader takes it, and reads `a` if it takes no more. -/
def Covers (F : Char → Bool) (p : Scan α) (t : List Char) (a : α) : Prop :=
  ∀ u, ∃ b r, p (t ++ u) = some (b, r) ∧ Reach F u a b r

namespace Covers

theorem stops (h : Covers F p t a) (hu : ∀ c v, u = c :: v → F c = false) :
    p (t ++ u) = some (a, u) := by
  obtain ⟨b, r, hr, hreach⟩ := h u
  have hrest := hreach.stop hu
  rw [hr, hreach.same (congrArg List.length hrest), hrest]

theorem imp (h : Covers F p t a) (hG : ∀ c, F c = true → G c = true) : Covers G p t a := by
  intro u
  obtain ⟨b, r, hr, hreach⟩ := h u
  refine ⟨b, r, hr, hreach.short, hreach.same, fun hu => hreach.stop fun c v hc => ?_⟩
  rw [Bool.eq_false_iff]
  intro hF
  exact Bool.false_ne_true ((hu c v hc).symm.trans (hG c hF))

theorem run (h : ∀ c ∈ t, F c = true) : Covers F (run F) t t := by
  intro u
  refine ⟨t ++ u.takeWhile F, u.dropWhile F, ?_, ?_, fun hlength => ?_, fun hu => ?_⟩
  · rw [Scan.run, List.takeWhile_append_of_pos h, List.dropWhile_append_of_pos h]
  · exact (List.dropWhile_suffix F).length_le
  · have hsplit := congrArg List.length (List.takeWhile_append_dropWhile (p := F) (l := u))
    rw [List.length_append, hlength, Nat.add_eq_right] at hsplit
    rw [List.length_eq_zero_iff.mp hsplit, List.append_nil]
  · cases u with
    | nil => rfl
    | cons c v => exact List.dropWhile_cons_of_neg (by simp [hu c v rfl])

theorem bind_pure {g : α → β} (h : Covers F p t a) : Covers F (do let x ← p; return g x) t (g a) := by
  intro u
  obtain ⟨b, r, hr, hreach⟩ := h u
  refine ⟨g b, r, ?_, hreach.short, fun hlength => by rw [hreach.same hlength], hreach.stop⟩
  rw [bind_of_some hr]
  rfl

theorem run1 (hne : t ≠ []) (h : ∀ c ∈ t, F c = true) : Covers F (run1 F) t t := by
  cases t with
  | nil => exact (hne rfl).elim
  | cons c cs =>
      obtain ⟨hc, hcs⟩ := List.forall_mem_cons.mp h
      intro u
      obtain ⟨b, r, hr, hreach⟩ := (run hcs).bind_pure (g := (c :: ·)) u
      refine ⟨b, r, ?_, hreach⟩
      rw [run1_eq, List.cons_append, bind_of_some (if_pos hc)]
      exact hr

theorem maybe (h : Covers F p t a) : Covers F (maybe p) t (some a) := by
  intro u
  obtain ⟨b, r, hr, hreach⟩ := h u
  exact ⟨some b, r, maybe_of_some hr, hreach.short, fun hlength => by rw [hreach.same hlength],
    hreach.stop⟩

theorem orElse_left (h : Covers F p t a) : Covers F (p <|> q) t a := by
  intro u
  obtain ⟨b, r, hr, hreach⟩ := h u
  exact ⟨b, r, orElse_of_some hr, hreach⟩

theorem orElse_right (hp : ∀ u, p (t ++ u) = none) (h : Covers F q t a) : Covers F (p <|> q) t a := by
  intro u
  obtain ⟨b, r, hr, hreach⟩ := h u
  exact ⟨b, r, (orElse_of_none (hp u)).trans hr, hreach⟩

theorem bind {f : α → Scan β} {b : β} {c : Char} (h : Covers F p t a) (hc : F c = false)
    (hf : Covers G (f a) (c :: t') b) : Covers G (p >>= f) (t ++ c :: t') b := by
  intro u
  obtain ⟨x, r, hr, hreach⟩ := hf u
  refine ⟨x, r, ?_, hreach⟩
  rw [List.append_assoc, bind_of_some (h.stops (by rintro _ _ ⟨⟩; exact hc))]
  exact hr

theorem bind_maybe {q : Scan β} {g : α → Option β → γ} (h : Covers F p t a) (hq : Takes q)
    (hG : First G q) : Covers (fun c => F c || G c)
      (do let x ← p; let y ← Scan.maybe q; return g x y) t (g a none) := by
  intro u
  obtain ⟨b, r, hr, hreach⟩ := h u
  rw [bind_of_some hr]
  cases hmore : q r with
  | none =>
      refine ⟨g b none, r, ?_, hreach.short, fun hlength => by rw [hreach.same hlength],
        fun hu => hreach.stop fun c v hc => (Bool.or_eq_false_iff.mp (hu c v hc)).1⟩
      rw [bind_of_some (maybe_of_none hmore)]
      rfl
  | some x =>
      have hless := hq r x.1 x.2 hmore
      refine ⟨g b (some x.1), x.2, ?_, Nat.le_trans (Nat.le_of_lt hless) hreach.short,
        fun hlength => ?_, fun hu => ?_⟩
      · rw [bind_of_some (maybe_of_some hmore)]
        rfl
      · -- the second reader has taken some of `u`
        exact (Nat.not_lt_of_le hreach.short (hlength ▸ hless)).elim
      · have hrest := hreach.stop fun c v hc => (Bool.or_eq_false_iff.mp (hu c v hc)).1
        obtain ⟨c, v, hc, hG'⟩ := hG.front hmore
        cases (Bool.or_eq_false_iff.mp (hu c v (hrest ▸ hc))).2.symm.trans hG'

end Covers

theorem append_of_run1 (h : run1 F t = some (u, r)) : t = u ++ r := by
  cases t with
  | nil => cases h
  | cons c s =>
      rw [run1, Option.ite_none_right_eq_some] at h
      cases h.2
      rw [List.cons_append, List.takeWhile_append_dropWhile]

theorem append_of_run (h : run F t = some (u, r)) : t = u ++ r := by
  cases h
  exact List.takeWhile_append_dropWhile.symm

theorem length_le_of_append (h : t ++ u = t' ++ r) (hall : ∀ c ∈ t, F c = true)
    (hr : ∀ c v, r = c :: v → F c = false) : t.length ≤ t'.length := by
  rcases List.append_eq_append_iff.mp h with ⟨w, rfl, -⟩ | ⟨w, rfl, rfl⟩
  · rw [List.length_append]
    exact Nat.le_add_right _ _
  · cases w with
    | nil => exact Nat.le_of_eq (congrArg List.length (List.append_nil t'))
    | cons c w => cases (hr c _ rfl).symm.trans (hall c (by simp))

end SmallScript.Scan
