import SmallScript.Proofs.Lockstep

namespace SmallScript.Scan

variable {α β : Type}

/-- From texts shorter than `n`, taking `k` characters at least. -/
def Yields (k n : Nat) (P : List Char → Prop) (p : Scan α) (Q : α → List Char → Prop) : Prop :=
  ∀ s, s.length < n → P s → ∀ a r, p s = some (a, r) → r.length + k ≤ s.length ∧ Q a r

def anywhere (_ : List Char) : Prop := True

namespace Yields

variable {k n m : Nat} {P P' : List Char → Prop} {p q : Scan α} {Q Q' : α → List Char → Prop}

theorem mono (h : Yields k n P p Q) (hm : m ≤ n) : Yields k m P p Q :=
  fun s hs => h s (Nat.lt_of_lt_of_le hs hm)

theorem on (h : Yields k n P p Q) (hP : ∀ s, P' s → P s) : Yields k n P' p Q :=
  fun s hs hs' => h s hs (hP s hs')

theorem imp (h : Yields k n P p Q) (hQ : ∀ a r, Q a r → Q' a r) : Yields k n P p Q' :=
  fun s hs hP a r hr => ⟨(h s hs hP a r hr).1, hQ a r (h s hs hP a r hr).2⟩

theorem weaken (h : Yields k n P p Q) : Yields 0 n P p Q :=
  fun s hs hP a r hr => ⟨Nat.le_trans (Nat.le_add_right _ _) (h s hs hP a r hr).1,
    (h s hs hP a r hr).2⟩

/-- How much a reader takes is known from its going along with itself. -/
theorem of_follows {T U : List Char → List Char → Prop} (h : Follows k n T U p p)
    (hT : ∀ s, P s → T s s) : Yields k n P p fun _ _ => True := by
  intro s hs hP a r hr
  rcases h s s hs (hT s hP) with ⟨hfail, -⟩ | ⟨_, _, _, hr', -, -, hleft, -⟩
  · cases hfail.symm.trans hr
  · cases hr'.symm.trans hr
    exact ⟨hleft, trivial⟩

theorem pure {a : α} (h : ∀ s, P s → Q a s) : Yields 0 n P (pure a) Q := by
  intro s _ hP b r hr
  cases hr
  exact ⟨Nat.le_refl _, h s hP⟩

/-- A condition that does not depend on the text is one on what follows. -/
theorem given {A : Prop} (h : A → Yields k n P p Q) : Yields k n (fun s => A ∧ P s) p Q :=
  fun s hs hP => h hP.1 s hs hP.2

theorem fact {A : Prop} (h : A → Yields k n anywhere p Q) : Yields k n (fun _ => A) p Q :=
  fun s hs hA => h hA s hs trivial

theorem each (h : ∀ s, P s → Yields k n (· = s) p Q) : Yields k n P p Q :=
  fun s hs hP => h s hP s hs rfl

theorem orFails {A : Prop} (h : Yields k n anywhere p Q) :
    Yields k n (fun s => A ∨ p s = none) p fun a r => A ∧ Q a r := by
  rintro s hs (hA | hnone) a r hr
  · exact ⟨(h s hs trivial a r hr).1, hA, (h s hs trivial a r hr).2⟩
  · cases hnone.symm.trans hr

theorem self {s : List Char} (h : Yields k n (· = s) p Q) :
    Yields k n (· = s) p fun a r => Q a r ∧ p s = some (a, r) := by
  intro s' hs heq a r hr
  subst heq
  exact ⟨(h s' hs rfl a r hr).1, (h s' hs rfl a r hr).2, hr⟩

theorem failure : Yields k n P (failure : Scan α) Q := fun _ _ _ _ _ => nofun

theorem seq {j : Nat} {f : α → Scan β} {R : β → List Char → Prop} (h : Yields j m P p Q)
    (hm : m ≤ n + j) (hf : ∀ a, Yields k n (Q a) (f a) R) : Yields (j + k) m P (p >>= f) R := by
  intro s hs hP b u hu
  rw [bind_apply] at hu
  cases hp : p s with
  | none =>
      rw [hp] at hu
      cases hu
  | some x =>
      rw [hp] at hu
      obtain ⟨hlength, hQ⟩ := h s hs hP x.1 x.2 hp
      obtain ⟨hlength', hR⟩ := hf x.1 x.2 (by omega) hQ b u hu
      exact ⟨by omega, hR⟩

theorem bind {j : Nat} {f : α → Scan β} {R : β → List Char → Prop} (h : Yields j n P p Q)
    (hf : ∀ a, Yields k n (Q a) (f a) R) : Yields k n P (p >>= f) R :=
  Nat.zero_add k ▸ h.weaken.seq (Nat.le_refl n) hf

theorem bindBehind {f : α → Scan β} {R : β → List Char → Prop} (h : Yields 1 (n + 1) P p Q)
    (hf : ∀ a, Yields 0 n (Q a) (f a) R) : Yields 1 (n + 1) P (p >>= f) R :=
  h.seq (Nat.le_refl (n + 1)) hf

theorem andThen {f : α → Scan β} {R : β → List Char → Prop} (h : Yields 1 n P p Q)
    (hf : ∀ a, Yields 0 n (Q a) (f a) R) : Yields 1 n P (p >>= f) R :=
  h.seq (Nat.le_succ n) hf

theorem map {f : α → β} {R : β → List Char → Prop} (h : Yields k n P p fun a r => R (f a) r) :
    Yields k n P (f <$> p) R := by
  intro s hs hP b u hu
  rw [map_apply, Option.map_eq_some_iff] at hu
  obtain ⟨x, hx, heq⟩ := hu
  cases heq
  exact h s hs hP x.1 x.2 hx

theorem orElse (hp : Yields k n P p Q) (hq : Yields k n (fun s => P s ∧ p s = none) q Q) :
    Yields k n P (p <|> q) Q := by
  intro s hs hP a r hr
  rw [orElse_apply] at hr
  cases hps : p s with
  | none =>
      rw [hps] at hr
      exact hq s hs ⟨hP, hps⟩ a r hr
  | some x =>
      rw [hps] at hr
      cases hr
      exact hp s hs hP a r hps

theorem or (hp : Yields k n P p Q) (hq : Yields k n P q Q) : Yields k n P (p <|> q) Q :=
  hp.orElse (hq.on fun _ h => h.1)

def Tried (P : List Char → Prop) (p : Scan α) (Q : α → List Char → Prop) :
    Option α → List Char → Prop
  | some a, r => Q a r
  | none, r => P r ∧ p r = none

theorem maybe (h : Yields k n P p Q) : Yields 0 n P (maybe p) (Tried P p Q) := by
  intro s hs hP a r hr
  rw [maybe_apply] at hr
  cases hps : p s with
  | none =>
      rw [hps] at hr
      cases hr
      exact ⟨Nat.le_refl _, hP, hps⟩
  | some x =>
      rw [hps] at hr
      cases hr
      exact h.weaken s hs hP x.1 x.2 hps

theorem maybeOf {A : α → Prop} (h : Yields k n P p fun a _ => A a) :
    Yields 0 n P (Scan.maybe p) fun o _ => ∀ a ∈ o, A a := by
  refine h.maybe.imp fun o r ho => ?_
  cases o with
  | none => exact nofun
  | some a =>
      rintro _ ⟨⟩
      exact ho

theorem upTo {A : α → Prop} (h : Yields 1 n anywhere p fun a _ => A a) (i : Nat) {s : List Char}
    (hs : s.length < n) : (upTo p i s).2.length ≤ s.length ∧ ∀ a ∈ (Scan.upTo p i s).1, A a := by
  induction i generalizing s with
  | zero => exact ⟨Nat.le_refl _, List.forall_mem_nil A⟩
  | succ i ih =>
      cases hp : p s with
      | none =>
          rw [Scan.upTo, hp]
          exact ⟨Nat.le_refl _, List.forall_mem_nil A⟩
      | some x =>
          obtain ⟨hlength, hA⟩ := h s hs trivial x.1 x.2 hp
          obtain ⟨hlength', hall⟩ := ih (s := x.2) (by omega)
          simp only [Scan.upTo, hp]
          exact ⟨by omega, List.forall_mem_cons.mpr ⟨hA, hall⟩⟩

theorem many {A : α → Prop} (h : Yields 1 n anywhere p fun a _ => A a) :
    Yields 0 n anywhere (many p) fun as _ => ∀ a ∈ as, A a := by
  intro s hs _ as r hr
  rw [Scan.many, repeated, Option.some.injEq] at hr
  cases hp : p s with
  | none =>
      rw [hp] at hr
      cases hr
      exact ⟨Nat.le_refl _, List.forall_mem_nil A⟩
  | some x =>
      rw [hp] at hr
      cases hr
      obtain ⟨hlength, hA⟩ := h s hs trivial x.1 x.2 hp
      obtain ⟨hlength', hall⟩ := h.upTo x.2.length (s := x.2) (by omega)
      exact ⟨by omega, List.forall_mem_cons.mpr ⟨hA, hall⟩⟩

theorem sepBy {A : α → Prop} {c : Scan Unit} (h : Yields 1 n anywhere p fun a _ => A a)
    (hc : Yields 1 n anywhere c fun _ _ => True) :
    Yields 0 n anywhere (sepBy p c) fun as _ => ∀ a ∈ as, A a := by
  refine h.maybeOf.bind fun first => .fact fun hfirst => ?_
  cases first with
  | none => exact .pure fun _ _ => nofun
  | some a =>
      refine (Yields.many (A := A) (hc.bind fun _ => h.on fun _ _ => trivial)).bind fun rest =>
        .fact fun hrest => .pure fun _ _ => List.forall_mem_cons.mpr ⟨hfirst a rfl, hrest⟩

end Yields

end SmallScript.Scan
