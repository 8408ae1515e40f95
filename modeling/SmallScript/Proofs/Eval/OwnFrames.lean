import SmallScript.Proofs.Eval.ForLoop
import SmallScript.Proofs.Eval.Routing
import Mathlib

namespace SmallScript

open Declares Effect Eval

/-- How the frames of a loop that starts in `s` are made and used, if the trees in it are evaluated
to a depth of `n`. -/
structure OwnFrames (host : Host) (n : Nat) (l : ForLoop) (f : FrameRef) (s : State) : Prop where
  /-- The loop is its passes, one after the other. -/
  run : ∀ {k i last s₁}, l.Begins (evaluator host n) f s k i last s₁ →
    k ≤ (evaluator host n).fuel →
    evalStmt (evaluator host n) f l.stmt s =
      iterate (l.pass (evaluator host n) f) ((evaluator host n).fuel - k) (i, last) s₁
  created : ∀ {k i last s₁}, l.Begins (evaluator host n) f s k i last s₁ → s.Opens f false i s₁
  apart : ∀ {k k' i i' last last' s₁ s₁'}, l.Begins (evaluator host n) f s k i last s₁ →
    l.Begins (evaluator host n) f s k' i' last' s₁' → k < k' → i < i'
  copied : ∀ {k i last last' s₁ s₂}, l.Begins (evaluator host n) f s k i last s₁ →
    l.Completes (evaluator host n) i last s₁ last' s₂ →
    s₂.memory.BindsAll i l.names ∧
      ∃ s₃, nextFrame f i l.names s₂ = .done s₂.memory.frames.size s₃ ∧
        s₂.memory.Copies f i l.names s₃.memory
  /-- What is left of the loop then is its rest. -/
  goesOn : ∀ {k i j last last' s₁ s₂ s₃}, l.Begins (evaluator host n) f s k i last s₁ →
    l.Completes (evaluator host n) i last s₁ last' s₂ → nextFrame f i l.names s₂ = .done j s₃ →
    ∀ m, iterate (l.pass (evaluator host n) f) (m + 1) (i, last) s₁ =
      l.rest (evaluator host n) f m (j, last') s₃
  /-- Names that mean a binding in the frame of the pass go on to mean it. -/
  seen : ∀ {k i j last last' s₁ s₂ s₃}, l.Begins (evaluator host n) f s k i last s₁ →
    l.Completes (evaluator host n) i last s₁ last' s₂ → nextFrame f i l.names s₂ = .done j s₃ →
    ∀ m s', (l.rest (evaluator host n) f m (j, last') s₃).state? = some s' →
      ∀ h < s₂.memory.frames.size, ∀ x, s₂.memory.resolve? h x = some i →
        s'.memory.resolve? h x = some i
  /-- The rest does the same whatever code the old frame is in, but calls of functions that were made
  in it or inside of it, which look at it. -/
  unread : ∀ {k i j last last' s₁ s₂ s₃}, l.Begins (evaluator host n) f s k i last s₁ →
    l.Completes (evaluator host n) i last s₁ last' s₂ → nextFrame f i l.names s₂ = .done j s₃ →
    ∀ m (code : Equiv.Perm (Table Binding)),
      l.rest (routed host i (recoded i code) n) f m (j, last') (s₃.recode i code) =
        (l.rest (evaluator host n) f m (j, last') s₃).mapState (State.recode i code)
  /-- And the old frame stays as it is, if such calls do not change it. -/
  unwritten : ∀ {k i j last last' s₁ s₂ s₃}, l.Begins (evaluator host n) f s k i last s₁ →
    l.Completes (evaluator host n) i last s₁ last' s₂ → nextFrame f i l.names s₂ = .done j s₃ →
    ∀ m s', (l.rest (routed host i (restored i) n) f m (j, last') s₃).state? = some s' →
      (s'.memory.frameAt i).bindings = (s₃.memory.frameAt i).bindings

section Blindness

variable {l : ForLoop} {host : Host} {n : Nat} {g f i j : FrameRef} {s s₂ s₃ : State}

theorem Veil.Related.rest {V : Veil} {E D : Evaluator} (h : V.Related E D) (l : ForLoop) (m : Nat)
    (next : FrameRef × Option Value) (hf : V.Outside f s.memory)
    (hnext : V.Outside next.1 s.memory) : V.BlindAt (l.rest E f m next) (l.rest D f m next) s :=
  (h.evalMaybe l.update s hnext).bind fun _ _ _ hkeeps =>
    h.passes l.names l.test l.update l.body m next (hf.keeps hkeeps) (hnext.keeps hkeeps)

theorem ForLoop.InFrame.outside {V : Veil} (h : l.InFrame V.global f s V.frame s₂)
    (hf : f < s.memory.frames.size) (hl : l.names ≠ [])
    (hnext : nextFrame f V.frame l.names s₂ = .done j s₃)
    (hok : V.ok (s₃.memory.frameAt V.frame).bindings) :
    V.Outside f s₃.memory ∧ V.Outside j s₃.memory := by
  obtain ⟨h₃, hgrows, hj, hcopies⟩ := h.next hf hl hnext
  have hholds : V.Holds s₃.memory := ⟨h₃.rooted, Nat.lt_of_lt_of_le h.lt hgrows.size_le, hok⟩
  have hout : ¬s₃.memory.Encloses V.frame f := by
    intro hencloses
    have hle := hencloses.le h₃.rooted
    exact absurd (Nat.le_trans h.opens.fresh hle) (Nat.not_le_of_lt hf)
  refine ⟨⟨hholds, h₃.outer_lt hf, hout⟩, hholds, h₃.lt, fun hencloses => ?_⟩
  rcases hencloses.eq_or_outer with heq | ⟨f', hparent, hencloses⟩
  · exact absurd (heq.trans hj) (Nat.ne_of_lt h.lt)
  · rw [h₃.opens.parent] at hparent
    cases hparent
    exact hout hencloses

end Blindness

/-- Every pass has a frame of its own. -/
theorem ownFrames (host : Host) (n : Nat) {l : ForLoop} {g f : FrameRef} {s : State}
    (hl : l.Proper) (hm : s.memory.Rooted g) (hf : f < s.memory.frames.size) :
    OwnFrames host n l f s where
  run h hk := h.run hk
  created h := (h.inFrame hl hm hf).opens
  apart h h' hk := h.lt_of_lt hl hm hf h' hk
  copied h hc := by
    have h₂ := h.inFrame_of_completes hl hm hf hc
    exact ⟨h₂.binds, nextFrame_copies f hl.names h₂.lt h₂.binds⟩
  goesOn _ hc hnext m := ForLoop.iterate_of_completes hc hnext m
  seen {k i j last last' s₁ s₂ s₃} h hc hnext m s' hend h' hlt x hx := by
    have h₂ := h.inFrame_of_completes hl hm hf hc
    obtain ⟨h₃, hgrows, rfl, -⟩ := h₂.next hf hl.names hnext
    have hrelated := Discipline.related_self (K := .free g fun _ => True) (fun _ => trivial) host n
    obtain ⟨hm', hgrows'⟩ := ForLoop.rest_grows hrelated h₃ hgrows (Nat.le_refl _)
      (h₂.outer_lt hf) last' m hend
    exact hgrows'.resolve? h₂.rooted hm' hlt hx
  unread {k i j last last' s₁ s₂ s₃} h hc hnext m code := by
    have h₂ := h.inFrame_of_completes hl hm hf hc
    obtain ⟨hout, hout'⟩ :=
      ForLoop.InFrame.outside (V := .recoded g i code) h₂ hf hl.names hnext trivial
    have hblind := Veil.routed_related (recoded_passes host g i code) n
    have hrest := (hblind.rest l m (j, last') hout hout').1
    rw [routed_id] at hrest
    exact hrest
  unwritten {k i j last last' s₁ s₂ s₃} h hc hnext m s' hend := by
    have h₂ := h.inFrame_of_completes hl hm hf hc
    obtain ⟨hout, hout'⟩ :=
      ForLoop.InFrame.outside (V := .fixed g i (s₃.memory.frameAt i).bindings) h₂ hf hl.names hnext
        rfl
    have hblind := Veil.routed_related (restored_passes host g i (s₃.memory.frameAt i).bindings) n
    exact ((hblind.rest l m (j, last') hout hout').2 s' hend).holds.ok

end SmallScript
