import SmallScript.Proofs.Memory.Recode
import SmallScript.Proofs.Outcome
import Mathlib

namespace SmallScript

open Effect

def State.recode (i : FrameRef) (code : Table Binding → Table Binding) (s : State) : State :=
  { s with memory := s.memory.recode i code }

/-- A frame whose bindings are put in another code, and what is known of them. -/
structure Veil where
  global : FrameRef
  frame : FrameRef
  code : Table Binding → Table Binding
  ok : Table Binding → Prop

namespace Veil

variable (V : Veil)

def hide (s : State) : State := s.recode V.frame V.code

structure Holds (m : Memory) : Prop where
  rooted : m.Rooted V.global
  lt : V.frame < m.frames.size
  ok : V.ok (m.frameAt V.frame).bindings

/-- The memory has grown, its frames are where they were, and the veiled one is still in order. -/
structure Keeps (m m' : Memory) : Prop where
  holds : V.Holds m'
  size_le : m.frames.size ≤ m'.frames.size
  parent : ∀ f < m.frames.size, (m'.frameAt f).parent = (m.frameAt f).parent

structure Outside (f : FrameRef) (m : Memory) : Prop where
  holds : V.Holds m
  lt : f < m.frames.size
  not_encloses : ¬m.Encloses V.frame f

variable {V} {m m' m'' : Memory} {f i : FrameRef}

theorem Keeps.refl (h : V.Holds m) : V.Keeps m m := ⟨h, Nat.le_refl _, fun _ _ => rfl⟩

theorem Keeps.trans (h : V.Keeps m m') (h' : V.Keeps m' m'') : V.Keeps m m'' where
  holds := h'.holds
  size_le := Nat.le_trans h.size_le h'.size_le
  parent i hi := (h'.parent i (Nat.lt_of_lt_of_le hi h.size_le)).trans (h.parent i hi)

theorem Holds.keeps_of_frames_eq (h : V.Holds m) (hframes : m'.frames = m.frames)
    (hclosures : m'.closures = m.closures) : V.Keeps m m' := by
  have hframe (i : FrameRef) : m'.frameAt i = m.frameAt i := by
    rw [Memory.frameAt, Memory.frameAt, hframes]
  refine ⟨⟨h.rooted.of_frames_eq hframes hclosures, hframes ▸ h.lt, hframe _ ▸ h.ok⟩, ?_, ?_⟩
  · rw [hframes]
  · intro i _
    rw [hframe]

theorem Holds.declare_keeps (h : V.Holds m) (hi : i < m.frames.size) (hne : i ≠ V.frame) (x : String)
    (v : Value) (isMutable : Bool) : V.Keeps m (m.declare i x v isMutable) := by
  have hframe : (m.declare i x v isMutable).frameAt V.frame = m.frameAt V.frame := by
    rw [Memory.declare, Memory.frameAt_modifyFrame m hi, if_neg hne]
  refine ⟨⟨h.rooted.declare hi isMutable, ?_, hframe ▸ h.ok⟩, ?_, ?_⟩
  · simpa using h.lt
  · simp
  · exact fun j _ => (Memory.frameAt_declare hi isMutable j).1

namespace Outside

theorem ne (h : V.Outside f m) : f ≠ V.frame := fun hf => h.not_encloses (hf ▸ .here)

theorem keeps (h : V.Outside f m) (hkeeps : V.Keeps m m') : V.Outside f m' where
  holds := hkeeps.holds
  lt := Nat.lt_of_lt_of_le h.lt hkeeps.size_le
  not_encloses := h.holds.rooted.not_encloses_of_parent h.lt hkeeps.parent h.not_encloses

theorem declareVar_keeps (h : V.Outside f m) (x : String) : V.Keeps m (m.declareVar f x) := by
  rw [Memory.declareVar]
  split
  · exact .refl h.holds
  · exact h.holds.declare_keeps (h.holds.rooted.varFrame_lt h.lt)
      (Memory.varFrame_ne h.not_encloses) x _ _

theorem newFrame_keeps (h : V.Outside f m) (isBoundary : Bool) :
    V.Keeps m (m.newFrame (some f) isBoundary).2 ∧
      V.Outside m.frames.size (m.newFrame (some f) isBoundary).2 := by
  have hframe (i : FrameRef) (hi : i < m.frames.size) :
      (m.newFrame (some f) isBoundary).2.frameAt i = m.frameAt i := by
    rw [Memory.frameAt_newFrame, if_neg (Nat.ne_of_lt hi)]
  have hkeeps : V.Keeps m (m.newFrame (some f) isBoundary).2 := by
    refine ⟨⟨h.holds.rooted.newFrame h.lt isBoundary, ?_, hframe _ h.holds.lt ▸ h.holds.ok⟩, ?_, ?_⟩
    · simpa using Nat.lt_succ_of_lt h.holds.lt
    · simp
    · exact fun i hi => by rw [hframe i hi]
  refine ⟨hkeeps, hkeeps.holds, by simp, ?_⟩
  intro hencloses
  rcases hencloses.eq_or_outer with heq | ⟨f', hparent, hencloses⟩
  · exact Nat.ne_of_lt h.holds.lt heq
  · rw [Memory.frameAt_newFrame, if_pos rfl] at hparent
    cases hparent
    exact (h.keeps hkeeps).not_encloses hencloses

end Outside

variable {α β γ : Type} {s s' : State}

/-- From the state `s` on `y` does in the other code what `x` does. -/
def BlindAt (V : Veil) (x y : Effect α) (s : State) : Prop :=
  y (V.hide s) = (x s).mapState V.hide ∧
    ∀ s', (x s).state? = some s' → V.Keeps s.memory s'.memory

/-- From all states on in which the frame `f` is outside. -/
def Blind (V : Veil) (f : FrameRef) (x y : Effect α) : Prop :=
  ∀ s, V.Outside f s.memory → V.BlindAt x y s

theorem BlindAt.done {x y : Effect α} (h : V.BlindAt x y s) {a : α} (hx : x s = .done a s') :
    V.Keeps s.memory s'.memory :=
  h.2 s' (by rw [hx]; rfl)

theorem BlindAt.bind {x y : Effect α} {k k' : α → Effect β} (h : V.BlindAt x y s)
    (hk : ∀ a s', x s = .done a s' → V.Keeps s.memory s'.memory → V.BlindAt (k a) (k' a) s') :
    V.BlindAt (x >>= k) (y >>= k') s := by
  rw [BlindAt, bind_apply, bind_apply, h.1]
  cases hx : x s with
  | done a s' =>
      have hkeeps := h.done hx
      obtain ⟨heq, hends⟩ := hk a s' hx hkeeps
      exact ⟨heq, fun s'' hs'' => hkeeps.trans (hends s'' hs'')⟩
  | fail e s' => exact ⟨rfl, fun s'' hs'' => h.2 s'' (by rw [hx]; exact hs'')⟩
  | exhausted => exact ⟨rfl, fun s'' hs'' => by cases hs''⟩

theorem Blind.bind {x y : Effect α} {k k' : α → Effect β} (h : V.Blind f x y)
    (hk : ∀ a, V.Blind f (k a) (k' a)) : V.Blind f (x >>= k) (y >>= k') :=
  fun s hs => (h s hs).bind fun a s' _ hkeeps => hk a s' (hs.keeps hkeeps)

theorem blindAt_done {x y : Effect α} {a : α} (hx : x s = .done a s')
    (hy : y (V.hide s) = .done a (V.hide s')) (h : V.Keeps s.memory s'.memory) :
    V.BlindAt x y s := by
  refine ⟨by rw [hx, hy]; rfl, fun s'' hs'' => ?_⟩
  rw [hx] at hs''
  cases hs''
  exact h

theorem blind_pure (a : α) : V.Blind f (pure a) (pure a) :=
  fun _ hs => blindAt_done rfl rfl (.refl hs.holds)

theorem blind_fail (e : Fault) : V.Blind (α := α) f (fail e) (fail e) := by
  refine fun s hs => ⟨rfl, fun s' hs' => ?_⟩
  cases hs'
  exact .refl hs.holds

theorem blind_exhausted : V.Blind (α := α) f (fun _ => .exhausted) (fun _ => .exhausted) :=
  fun _ _ => ⟨rfl, fun _ hs' => by cases hs'⟩

theorem blind_ofExcept (r : Except Fault α) : V.Blind f (ofExcept r) (ofExcept r) := by
  cases r with
  | ok a => exact blind_pure a
  | error e => exact blind_fail e

/-- What is seen from outside is seen in the other code as well. -/
theorem blind_look {p : Memory → α}
    (h : ∀ m, V.Outside f m → p (m.recode V.frame V.code) = p m) :
    V.Blind f (look p) (look p) :=
  fun s hs => blindAt_done rfl (congrArg (Outcome.done · (V.hide s)) (h s.memory hs))
    (.refl hs.holds)

theorem blind_query {p : Memory → Except Fault α}
    (h : ∀ m, V.Outside f m → p (m.recode V.frame V.code) = p m) :
    V.Blind f (query p) (query p) := by
  intro s hs
  have hquery := blind_ofExcept (V := V) (p s.memory) s hs
  refine ⟨?_, hquery.2⟩
  exact (congrArg (ofExcept · (V.hide s)) (h s.memory hs)).trans hquery.1

theorem blind_change {p : Memory → Memory}
    (h : ∀ m, V.Outside f m → p (m.recode V.frame V.code) = (p m).recode V.frame V.code ∧
      V.Keeps m (p m)) : V.Blind f (change p) (change p) := by
  intro s hs
  obtain ⟨heq, hkeeps⟩ := h s.memory hs
  exact blindAt_done rfl
    (congrArg (fun m => Outcome.done () (State.mk m s.output s.writes s.depth)) heq) hkeeps

theorem blind_allocate {p : Memory → α × Memory}
    (h : ∀ m, V.Outside f m → p (m.recode V.frame V.code) =
      ((p m).1, (p m).2.recode V.frame V.code) ∧ V.Keeps m (p m).2) :
    V.Blind f (allocate p) (allocate p) := by
  intro s hs
  obtain ⟨heq, hkeeps⟩ := h s.memory hs
  have hdone : allocate p s =
      .done (p s.memory).1 ⟨(p s.memory).2, s.output, s.writes, s.depth⟩ := rfl
  refine blindAt_done hdone ?_ hkeeps
  exact congrArg (fun q => Outcome.done q.1 (State.mk q.2 s.output s.writes s.depth)) heq

theorem blind_depth : V.Blind f depth depth := fun _ hs => blindAt_done rfl rfl (.refl hs.holds)

theorem blind_writeLine (host : Host) (line : String) :
    V.Blind f (writeLine host line) (writeLine host line) := by
  intro s hs
  have hkeeps (output : String) (writes depth : Nat) :
      V.Keeps s.memory (State.mk s.memory output writes depth).memory := .refl hs.holds
  cases h : host.sinkFault s.writes with
  | none =>
      refine blindAt_done (a := ()) ?_ ?_ (hkeeps (s.output ++ line ++ "\n") (s.writes + 1) s.depth)
      · simp only [writeLine, h]
      · simp only [writeLine, hide, State.recode, h]
  | some e =>
      have hfail : writeLine host line s = .fail (.sinkFailed e) { s with writes := s.writes + 1 } := by
        simp only [writeLine, h]
      refine ⟨?_, fun s' hs' => ?_⟩
      · rw [hfail]
        simp only [writeLine, hide, State.recode, h]
        rfl
      · rw [hfail] at hs'
        cases hs'
        exact hkeeps _ _ _

theorem Blind.deeper {x y : Effect α} (h : V.Blind f x y) : V.Blind f (deeper x) (deeper y) := by
  intro s hs
  obtain ⟨heq, hends⟩ := h { s with depth := s.depth + 1 } hs
  rw [BlindAt, deeper_apply, deeper_apply]
  refine ⟨?_, fun s' hs' => ?_⟩
  · refine (congrArg (Outcome.mapState State.leave) heq).trans ?_
    rw [Outcome.mapState_mapState, Outcome.mapState_mapState]
    rfl
  · rw [Outcome.state?_mapState, Option.map_eq_some_iff] at hs'
    obtain ⟨u, hu, rfl⟩ := hs'
    exact hends u hu

theorem Blind.outcome {x y : Effect α} (h : V.Blind f x y) : V.Blind f (outcome x) (outcome y) := by
  intro s hs
  obtain ⟨heq, hends⟩ := h s hs
  rw [BlindAt, outcome_apply, outcome_apply, heq]
  refine ⟨?_, fun s' hs' => hends s' ?_⟩
  · cases x s <;> rfl
  · cases hx : x s with
    | done a u | fail e u =>
        rw [hx] at hs'
        exact hs'
    | exhausted =>
        rw [hx] at hs'
        cases hs'

def BlindTo (V : Veil) (post : α → State → Prop) (x y : Effect α) (s : State) : Prop :=
  V.BlindAt x y s ∧ ∀ a s', x s = .done a s' → post a s'

theorem BlindAt.bindTo {post : β → State → Prop} {x y : Effect α} {k k' : α → Effect β}
    (h : V.BlindAt x y s)
    (hk : ∀ a s', x s = .done a s' → V.Keeps s.memory s'.memory →
      V.BlindTo post (k a) (k' a) s') : V.BlindTo post (x >>= k) (y >>= k') s := by
  refine ⟨h.bind fun a s' hx hkeeps => (hk a s' hx hkeeps).1, fun b s'' hdone => ?_⟩
  obtain ⟨a, s', hx, hb⟩ := bind_eq_done.mp hdone
  exact (hk a s' hx (h.done hx)).2 b s'' hb

theorem blindTo_pure {post : α → State → Prop} {a : α} (hs : V.Holds s.memory) (h : post a s) :
    V.BlindTo post (pure a) (pure a) s := by
  refine ⟨blindAt_done rfl rfl (.refl hs), fun b s' hdone => ?_⟩
  cases hdone
  exact h

theorem blindAt_iterate {I : β → State → Prop} {step step' : β → Effect (β ⊕ γ)}
    (hI : ∀ b s, I b s → V.Outside f s.memory)
    (h : ∀ b s, I b s →
      V.BlindTo (fun r s' => ∀ b', r = .inl b' → I b' s') (step b) (step' b) s)
    (n : Nat) {b : β} (hb : I b s) : V.BlindAt (iterate step n b) (iterate step' n b) s := by
  induction n generalizing b s with
  | zero => exact blind_exhausted s (hI b s hb)
  | succ n ih =>
      rw [iterate_succ, iterate_succ]
      obtain ⟨hstep, hinv⟩ := h b s hb
      refine hstep.bind ?_
      rintro (b' | c) s' hdone hkeeps
      · exact ih (hinv _ s' hdone b' rfl)
      · exact blind_pure c s' ((hI b s hb).keeps hkeeps)

theorem blind_iterate {step step' : β → Effect (β ⊕ γ)}
    (h : ∀ b, V.Blind f (step b) (step' b)) (n : Nat) (b : β) :
    V.Blind f (iterate step n b) (iterate step' n b) :=
  fun _ hs => blindAt_iterate (I := fun _ s => V.Outside f s.memory) (fun _ _ hs => hs)
    (fun b s hs => ⟨h b s hs, fun _ _ hdone _ _ => hs.keeps ((h b s hs).done hdone)⟩) n hs

section Primitives

theorem blind_getProperty (v : Value) (key : String) :
    V.Blind f (getProperty v key) (getProperty v key) :=
  blind_query fun _ _ => Memory.getProperty_recode v key

theorem blind_setProperty (base : Value) (key : String) (v : Value) :
    V.Blind f (setProperty base key v) (setProperty base key v) :=
  (blind_query fun _ _ => Memory.placeOf_recode base key v).bind fun place =>
    blind_change fun m hm => ⟨Memory.write_recode v place,
      hm.holds.keeps_of_frames_eq (m.frames_write v place) (m.closures_write v place)⟩

theorem blind_readName (x : String) : V.Blind f (readName f x) (readName f x) :=
  blind_query fun _ hm => Memory.readName_recode hm.not_encloses x

theorem blind_declare (x : String) (v : Value) (isMutable : Bool) :
    V.Blind f (declare f x v isMutable) (declare f x v isMutable) :=
  blind_change fun _ hm => ⟨Memory.declare_recode hm.ne x v isMutable,
    hm.holds.declare_keeps hm.lt hm.ne x v isMutable⟩

theorem blind_assign (x : String) (v : Value) : V.Blind f (assign f x v) (assign f x v) := by
  intro s hs
  have hquery : V.Blind f (query fun m => m.writableFrame f x)
      (query fun m => m.writableFrame f x) :=
    blind_query fun _ hm => Memory.writableFrame_recode hm.not_encloses x
  refine (hquery s hs).bind fun i s' hdone hkeeps => ?_
  -- The frame that is found is not the veiled one, in this state.
  rw [query] at hdone
  cases hw : s.memory.writableFrame f x with
  | error e =>
      rw [hw] at hdone
      cases hdone
  | ok j =>
      rw [hw] at hdone
      cases hdone
      have hne := Memory.writableFrame_ne hs.holds.rooted hs.lt hs.not_encloses hw
      obtain ⟨hlt, -⟩ := hs.holds.rooted.change_write (d := Declares.nowhere) (v := v) hs.lt hw
      exact blindAt_done rfl
        (congrArg (fun m => Outcome.done () (State.mk m s.output s.writes s.depth))
          (Memory.declare_recode hne x v true))
        (hs.holds.declare_keeps hlt hne x v true)

theorem blind_newFrame (isBoundary : Bool) :
    V.Blind f (allocate fun m => m.newFrame (some f) isBoundary)
      (allocate fun m => m.newFrame (some f) isBoundary) :=
  blind_allocate fun _ hm =>
    ⟨Memory.newFrame_recode hm.holds.lt _ _, (hm.newFrame_keeps isBoundary).1⟩

theorem Outside.outside_newFrame {isBoundary : Bool} (hs : V.Outside f s.memory)
    (h : allocate (fun m => m.newFrame (some f) isBoundary) s = .done i s') :
    V.Outside i s'.memory := by
  cases h
  exact (hs.newFrame_keeps isBoundary).2

theorem blindAt_newFrame {k k' : FrameRef → Effect β} {isBoundary : Bool}
    (hs : V.Outside f s.memory)
    (hk : ∀ i s', V.Keeps s.memory s'.memory → V.Outside i s'.memory →
      V.BlindAt (k i) (k' i) s') :
    V.BlindAt (allocate (fun m => m.newFrame (some f) isBoundary) >>= k)
      (allocate (fun m => m.newFrame (some f) isBoundary) >>= k') s :=
  (blind_newFrame isBoundary s hs).bind fun i s' hdone hkeeps =>
    hk i s' hkeeps (hs.outside_newFrame hdone)

theorem blind_blockFrame {k k' : FrameRef → Effect β} (h : ∀ i, V.Blind i (k i) (k' i)) :
    V.Blind f (blockFrame f >>= k) (blockFrame f >>= k') :=
  fun _ hs => blindAt_newFrame hs fun i s' _ hi => h i s' hi

theorem blind_newClosure (definition : Function) :
    V.Blind f (newClosure definition f) (newClosure definition f) :=
  blind_allocate fun _ hm => ⟨rfl,
    ⟨⟨hm.holds.rooted.newClosure definition hm.lt, hm.holds.lt, hm.holds.ok⟩, Nat.le_refl _,
      fun _ _ => rfl⟩⟩

theorem blind_make {p : Memory → α × Memory}
    (h : ∀ m, p (m.recode V.frame V.code) = ((p m).1, (p m).2.recode V.frame V.code))
    (hframes : ∀ m, (p m).2.frames = m.frames) (hclosures : ∀ m, (p m).2.closures = m.closures) :
    V.Blind f (allocate p) (allocate p) :=
  blind_allocate fun m hm => ⟨h m, hm.holds.keeps_of_frames_eq (hframes m) (hclosures m)⟩

end Primitives

end Veil

end SmallScript
