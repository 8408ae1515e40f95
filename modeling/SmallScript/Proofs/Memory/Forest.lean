import SmallScript.Proofs.Outcome
import SmallScript.Proofs.Memory.Global
import Mathlib

namespace SmallScript

namespace Memory

variable {m m' : Memory} {f f' g g' i j t : FrameRef} {l l' : List FrameRef} {gs : List FrameRef}
  {x y : String} {v : Value} {p : Frame → Bool}

/-- The frames from `f` outward, of which `g` is the last one. -/
inductive Chain (m : Memory) : FrameRef → List FrameRef → FrameRef → Prop where
  | last {g : FrameRef} (h : (m.frameAt g).parent = none) : Chain m g [g] g
  | outer {f f' g : FrameRef} {l : List FrameRef} (h : (m.frameAt f).parent = some f')
      (hl : Chain m f' l g) : Chain m f (f :: l) g

def binder (m : Memory) (l : List FrameRef) (x : String) : Option FrameRef :=
  l.find? fun i => m.isDeclaredHere i x

namespace Chain

theorem unique (h : m.Chain f l g) (h' : m.Chain f l' g') : l = l' ∧ g = g' := by
  induction h generalizing l' with
  | last hnone =>
      cases h' with
      | last => exact ⟨rfl, rfl⟩
      | outer hsome => simp [hnone] at hsome
  | outer hsome _ ih =>
      cases h' with
      | last hnone => simp [hnone] at hsome
      | outer hsome' hl' =>
          rw [hsome] at hsome'
          cases hsome'
          obtain ⟨rfl, rfl⟩ := ih hl'
          exact ⟨rfl, rfl⟩

theorem last_mem (h : m.Chain f l g) : g ∈ l := by
  induction h with
  | last => exact List.mem_singleton.mpr rfl
  | outer _ _ ih => exact List.mem_cons_of_mem _ ih

theorem last_parent (h : m.Chain f l g) : (m.frameAt g).parent = none := by
  induction h with
  | last h => exact h
  | outer _ _ ih => exact ih

theorem eq_last (h : m.Chain f l g) (hi : i ∈ l) (hparent : (m.frameAt i).parent = none) :
    i = g := by
  induction h with
  | last => exact List.mem_singleton.mp hi
  | outer hsome _ ih =>
      rcases List.mem_cons.mp hi with rfl | hi
      · simp [hparent] at hsome
      · exact ih hi

theorem congr (h : m.Chain f l g) (hparent : ∀ i, (m'.frameAt i).parent = (m.frameAt i).parent) :
    m'.Chain f l g := by
  induction h with
  | last h => exact .last ((hparent _).trans h)
  | outer h _ ih => exact .outer ((hparent _).trans h) ih

/-- With enough fuel a search finds the first frame of the chain that it looks for. -/
theorem nearest?_eq (h : m.Chain f l g) {n : Nat} (hn : l.length ≤ n) :
    m.nearest? p n f = l.find? fun i => p (m.frameAt i) := by
  induction h generalizing n with
  | last hnone =>
      obtain ⟨n, rfl⟩ := Nat.exists_eq_add_of_le' hn
      rw [List.length_singleton, nearest?, hnone, List.find?_cons, List.find?_nil]
      cases p (m.frameAt _) <;> rfl
  | outer hsome _ ih =>
      rw [List.length_cons] at hn
      obtain ⟨n, rfl⟩ : ∃ k, n = k + 1 := ⟨n - 1, by omega⟩
      rw [nearest?, hsome, List.find?_cons]
      cases p (m.frameAt _) with
      | true => rfl
      | false => exact ih (Nat.le_of_succ_le_succ hn)

end Chain

structure Planted (m : Memory) (gs : List FrameRef) : Prop where
  parent_lt : ∀ {f f'}, (m.frameAt f).parent = some f' → f' < f
  parent_none : ∀ {f}, f < m.frames.size → (m.frameAt f).parent = none → f ∈ gs
  global_lt : ∀ g ∈ gs, g < m.frames.size
  global_parent : ∀ g ∈ gs, (m.frameAt g).parent = none
  isBoundary : ∀ g ∈ gs, (m.frameAt g).isBoundary = true

namespace Planted

theorem of_same (h : m.Planted gs) (hsize : m'.frames.size = m.frames.size)
    (hframe : ∀ i, (m'.frameAt i).parent = (m.frameAt i).parent ∧
      (m'.frameAt i).isBoundary = (m.frameAt i).isBoundary) : m'.Planted gs where
  parent_lt hf := h.parent_lt ((hframe _).1.symm.trans hf)
  parent_none hf hnone := h.parent_none (hsize ▸ hf) ((hframe _).1.symm.trans hnone)
  global_lt g hg := hsize ▸ h.global_lt g hg
  global_parent g hg := (hframe g).1.trans (h.global_parent g hg)
  isBoundary g hg := (hframe g).2.trans (h.isBoundary g hg)

theorem newFrame (h : m.Planted gs) {parent : Option FrameRef} {isBoundary : Bool}
    {gs' : List FrameRef} (hparent : ∀ f, parent = some f → f < m.frames.size)
    (hboundary : parent = none → isBoundary = true)
    (hgs : ∀ i, i ∈ gs' ↔ i ∈ gs ∨ parent = none ∧ i = m.frames.size) :
    (m.newFrame parent isBoundary).2.Planted gs' := by
  have hold (g : FrameRef) (hg : g ∈ gs) :
      (m.newFrame parent isBoundary).2.frameAt g = m.frameAt g := by
    rw [frameAt_newFrame, if_neg (Nat.ne_of_lt (h.global_lt g hg))]
  have hnew : (m.newFrame parent isBoundary).2.frameAt m.frames.size = ⟨[], parent, isBoundary⟩ := by
    rw [frameAt_newFrame, if_pos rfl]
  refine ⟨?_, ?_, ?_, ?_, ?_⟩
  · intro i j hij
    rw [frameAt_newFrame] at hij
    split at hij
    · rename_i hi
      exact hi ▸ hparent j hij
    · exact h.parent_lt hij
  · intro i hi hnone
    rw [size_newFrame] at hi
    rw [frameAt_newFrame] at hnone
    rw [hgs]
    split at hnone
    · rename_i heq
      exact .inr ⟨hnone, heq⟩
    · rename_i hne
      exact .inl (h.parent_none (Nat.lt_of_le_of_ne (Nat.le_of_lt_succ hi) hne) hnone)
  · intro g hg
    rw [size_newFrame]
    obtain hg | ⟨-, rfl⟩ := (hgs g).mp hg
    · exact Nat.lt_succ_of_lt (h.global_lt g hg)
    · exact Nat.lt_succ_self _
  · intro g hg
    obtain hg | ⟨hnone, rfl⟩ := (hgs g).mp hg
    · rw [hold g hg]
      exact h.global_parent g hg
    · rw [hnew]
      exact hnone
  · intro g hg
    obtain hg | ⟨hnone, rfl⟩ := (hgs g).mp hg
    · rw [hold g hg]
      exact h.isBoundary g hg
    · rw [hnew]
      exact hboundary hnone

theorem nested (h : m.Planted gs) (hf : f < m.frames.size) (isBoundary : Bool) :
    (m.newFrame (some f) isBoundary).2.Planted gs :=
  h.newFrame (fun _ hf' => Option.some.inj hf' ▸ hf) nofun (by simp)

theorem declare (h : m.Planted gs) (hf : f < m.frames.size) (x : String) (v : Value)
    (isMutable : Bool) : (m.declare f x v isMutable).Planted gs :=
  h.of_same (by simp) (frameAt_declare hf isMutable)

theorem declareAll (h : m.Planted gs) (hf : f < m.frames.size) (bs : List (String × Value))
    (isMutable : Bool) : (m.declareAll f bs isMutable).Planted gs :=
  h.of_same (frameAt_declareAll hf bs isMutable).1 (frameAt_declareAll hf bs isMutable).2

theorem newGlobal (h : m.Planted gs) : m.newGlobal.2.Planted (m.newGlobal.1 :: gs) := by
  have hfirst : (m.newFrame none true).2.Planted (m.frames.size :: gs) :=
    h.newFrame nofun (fun _ => rfl) (by simp [or_comm])
  have hlt : m.frames.size < (m.newFrame none true).2.frames.size :=
    hfirst.global_lt _ (List.mem_cons_self ..)
  exact (hfirst.declareAll hlt _ true).declareAll (lt_size_declareAll hlt _ true) _ false

theorem exists_chain (h : m.Planted gs) (hf : f < m.frames.size) :
    ∃ l, ∃ g ∈ gs, m.Chain f l g := by
  induction f using Nat.strong_induction_on with
  | _ f ih =>
    cases hparent : (m.frameAt f).parent with
    | none => exact ⟨[f], f, h.parent_none hf hparent, .last hparent⟩
    | some f' =>
        have hlt := h.parent_lt hparent
        obtain ⟨l, g, hg, hl⟩ := ih f' hlt (Nat.lt_trans hlt hf)
        exact ⟨f :: l, g, hg, .outer hparent hl⟩

theorem length_le (h : m.Planted gs) (hl : m.Chain f l g) : l.length ≤ chainFuel f := by
  induction hl with
  | last => exact Nat.le_add_left 1 _
  | outer hparent _ ih => exact Nat.succ_le_succ (Nat.le_trans ih (h.parent_lt hparent))

theorem mem_lt (h : m.Planted gs) (hl : m.Chain f l g) (hf : f < m.frames.size) (hi : i ∈ l) :
    i < m.frames.size := by
  induction hl with
  | last => exact List.mem_singleton.mp hi ▸ hf
  | outer hparent _ ih =>
      rcases List.mem_cons.mp hi with rfl | hi
      · exact hf
      · exact ih (Nat.lt_trans (h.parent_lt hparent) hf) hi

theorem last_mem_globals (h : m.Planted gs) (hl : m.Chain f l g) (hf : f < m.frames.size) :
    g ∈ gs :=
  h.parent_none (h.mem_lt hl hf hl.last_mem) hl.last_parent

theorem nearest?_eq (h : m.Planted gs) (hl : m.Chain f l g) (p : Frame → Bool) :
    m.nearest? p (chainFuel f) f = l.find? fun i => p (m.frameAt i) :=
  hl.nearest?_eq (h.length_le hl)

theorem resolve?_eq (h : m.Planted gs) (hl : m.Chain f l g) (x : String) :
    m.resolve? f x = m.binder l x :=
  h.nearest?_eq hl _

theorem lookup?_eq (h : m.Planted gs) (hl : m.Chain f l g) (x : String) :
    m.lookup? f x = (m.binder l x).bind fun i => (m.bindingAt? i x).map Binding.value := by
  rw [lookup?, h.resolve?_eq hl]
  cases m.binder l x with
  | none => rfl
  | some i =>
      simp only [bind, Option.bind]
      cases m.bindingAt? i x <;> rfl

theorem outermost_eq (h : m.Planted gs) (hl : m.Chain f l g) : m.outermost f = g := by
  rw [outermost, h.nearest?_eq hl]
  cases hfind : l.find? fun i => (m.frameAt i).parent.isNone with
  | none =>
      have hlast := List.find?_eq_none.mp hfind g hl.last_mem
      simp [hl.last_parent] at hlast
  | some i =>
      have hparent : (m.frameAt i).parent = none := by simpa using List.find?_some hfind
      exact hl.eq_last (List.mem_of_find?_eq_some hfind) hparent

theorem varFrame_eq (h : m.Planted gs) (hl : m.Chain f l g) (hf : f < m.frames.size) :
    l.find? (fun i => (m.frameAt i).isBoundary) = some (m.varFrame f) := by
  have hsame : ∀ i ∈ l, ((m.frameAt i).isBoundary || (m.frameAt i).parent.isNone) =
      (m.frameAt i).isBoundary := by
    intro i hi
    cases hparent : (m.frameAt i).parent with
    | some _ => simp
    | none => simp [h.isBoundary i (h.parent_none (h.mem_lt hl hf hi) hparent)]
  rw [varFrame, h.nearest?_eq hl, List.find?_congr hsame]
  cases hfind : l.find? fun i => (m.frameAt i).isBoundary with
  | none =>
      have hlast := List.find?_eq_none.mp hfind g hl.last_mem
      exact absurd (h.isBoundary g (h.last_mem_globals hl hf)) hlast
  | some i => rfl

end Planted

section Binders

theorem binder_mem (h : m.binder l x = some i) : i ∈ l := List.mem_of_find?_eq_some h

theorem binder_binds (h : m.binder l x = some i) : m.isDeclaredHere i x = true :=
  List.find?_some (p := fun i => m.isDeclaredHere i x) h

theorem binder_cons (m : Memory) (i : FrameRef) (l : List FrameRef) (x : String) :
    m.binder (i :: l) x = if m.isDeclaredHere i x then some i else m.binder l x := by
  rw [binder, List.find?_cons]
  cases m.isDeclaredHere i x <;> rfl

theorem isDeclaredHere_declare (hi : i < m.frames.size) (isMutable : Bool) :
    (m.declare i x v isMutable).isDeclaredHere j y =
      (decide (j = i ∧ y = x) || m.isDeclaredHere j y) := by
  rw [Bool.eq_iff_iff, isDeclaredHere_iff, bindingAt?_declare hi, Bool.or_eq_true, isDeclaredHere_iff]
  split <;> simp_all

theorem binder_declare_of_ne (hi : i < m.frames.size) (isMutable : Bool) (l : List FrameRef)
    (hy : y ≠ x) : (m.declare i x v isMutable).binder l y = m.binder l y := by
  simp [binder, isDeclaredHere_declare hi, hy]

theorem binder_declare_or (hi : i < m.frames.size) (isMutable : Bool) (l : List FrameRef) :
    (m.declare i x v isMutable).binder l x = some i ∨
      (m.declare i x v isMutable).binder l x = m.binder l x := by
  induction l with
  | nil => exact .inr rfl
  | cons j l ih =>
      rw [binder_cons, binder_cons, isDeclaredHere_declare hi]
      by_cases hj : j = i
      · exact .inl (by simp [hj])
      · cases hx : m.isDeclaredHere j x with
        | true => exact .inr (by simp)
        | false => simpa [hj] using ih

/-- A frame that binds a name already, or is a global one, gets a binding of it without hiding any
other one. -/
theorem Chain.binder_declare (hl : m.Chain t l g) (hi : i < m.frames.size) (isMutable : Bool)
    (h : (m.frameAt i).parent = none ∨ m.isDeclaredHere i x = true) :
    (m.declare i x v isMutable).binder l x = some i ↔ (m.binder l x).getD g = i := by
  induction hl with
  | @last g hnone =>
      rw [binder_cons, binder_cons, isDeclaredHere_declare hi]
      by_cases hg : g = i <;> cases m.isDeclaredHere g x <;> simp [hg, binder]
  | @outer t f' g l hsome _ ih =>
      rw [binder_cons, binder_cons, isDeclaredHere_declare hi]
      by_cases ht : t = i
      · subst t
        simp [h.resolve_left (by simp [hsome])]
      · cases m.isDeclaredHere t x with
        | true => simp
        | false => simpa [ht] using ih

end Binders

/-- The nearest of the frames that binds `x` has it as a constant. -/
def Constant (m : Memory) (l : List FrameRef) (x : String) : Prop :=
  ∃ i w, m.binder l x = some i ∧ m.bindingAt? i x = some ⟨w, false⟩

theorem Planted.writableFrame_of_constant (h : m.Planted gs) (hl : m.Chain f l g)
    (hx : m.Constant l x) : m.writableFrame f x = .error .constantAssigned := by
  obtain ⟨i, w, hi, hw⟩ := hx
  rw [writableFrame, h.resolve?_eq hl, hi]
  simp only [hw]

theorem Planted.writableFrame_eq (h : m.Planted gs) (hl : m.Chain f l g)
    (hx : ¬ m.Constant l x) : m.writableFrame f x = .ok ((m.binder l x).getD g) := by
  rw [writableFrame, h.resolve?_eq hl, h.outermost_eq hl]
  cases hi : m.binder l x with
  | none => rfl
  | some i =>
      obtain ⟨⟨w, isMutable⟩, hw⟩ := isDeclaredHere_iff.mp (binder_binds hi)
      cases isMutable with
      | true => simp only [hw, Option.getD_some]
      | false => exact absurd ⟨i, w, hi, hw⟩ hx

/-- What a write of `v` to `x` in the frame `i` does to the scopes: it is seen from where `i` is now
the nearest frame that binds `x`, and changes no other look-up from anywhere. -/
structure Written (m m' : Memory) (i : FrameRef) (x : String) (v : Value) : Prop where
  chain : ∀ {t l g}, m'.Chain t l g ↔ m.Chain t l g
  nearest : ∀ {t l g}, m.Chain t l g → (m'.binder l x = some i ↔ (m.binder l x).getD g = i)
  seen : ∀ {t l g}, m.Chain t l g → m'.binder l x = some i → m'.lookup? t x = some v
  same : ∀ {t l g}, m.Chain t l g → ∀ y, ¬ (y = x ∧ m'.binder l x = some i) →
    m'.lookup? t y = m.lookup? t y

theorem chain_declare (hi : i < m.frames.size) (isMutable : Bool) :
    (m.declare i x v isMutable).Chain t l g ↔ m.Chain t l g :=
  ⟨fun hl => hl.congr fun j => (frameAt_declare hi isMutable j).1.symm,
    fun hl => hl.congr fun j => (frameAt_declare hi isMutable j).1⟩

theorem Planted.written (h : m.Planted gs) (hi : i < m.frames.size)
    (hx : (m.frameAt i).parent = none ∨ m.isDeclaredHere i x = true) (v : Value) :
    m.Written (m.declare i x v true) i x v := by
  have hsame := h.declare hi x v true
  refine ⟨chain_declare hi true, fun hl => hl.binder_declare hi true hx, ?_, ?_⟩
  · intro t l g hl hbinder
    rw [hsame.lookup?_eq ((chain_declare hi true).mpr hl), hbinder]
    simp [bindingAt?_declare hi]
  · intro t l g hl y hy
    have hbinder : (m.declare i x v true).binder l y = m.binder l y := by
      by_cases hyx : y = x
      · subst hyx
        exact (binder_declare_or hi true l).resolve_left fun h => hy ⟨rfl, h⟩
      · exact binder_declare_of_ne hi true l hyx
    rw [hsame.lookup?_eq ((chain_declare hi true).mpr hl), h.lookup?_eq hl, hbinder]
    refine Option.bind_congr fun j hj => ?_
    rw [bindingAt?_declare hi, if_neg]
    rintro ⟨rfl, rfl⟩
    exact hy ⟨rfl, hbinder.trans hj⟩

theorem Planted.writable (h : m.Planted gs) (hl : m.Chain f l g) (hf : f < m.frames.size) :
    (m.binder l x).getD g < m.frames.size ∧
      ((m.frameAt ((m.binder l x).getD g)).parent = none ∨
        m.isDeclaredHere ((m.binder l x).getD g) x = true) := by
  cases hi : m.binder l x with
  | none => exact ⟨h.mem_lt hl hf hl.last_mem, .inl hl.last_parent⟩
  | some i => exact ⟨h.mem_lt hl hf (binder_mem hi), .inr (binder_binds hi)⟩

inductive Forest : Memory → List FrameRef → Prop where
  | empty : Forest empty []
  | global {m : Memory} {gs : List FrameRef} (h : Forest m gs) :
      Forest m.newGlobal.2 (m.newGlobal.1 :: gs)
  | child {m : Memory} {gs : List FrameRef} {f : FrameRef} (h : Forest m gs)
      (hf : f < m.frames.size) : Forest (m.newFrame (some f) false).2 gs
  | function {m : Memory} {gs : List FrameRef} {f : FrameRef} (h : Forest m gs)
      (hf : f < m.frames.size) : Forest (m.newFrame (some f) true).2 gs
  | declare {m : Memory} {gs : List FrameRef} {f : FrameRef} (h : Forest m gs)
      (hf : f < m.frames.size) (x : String) (v : Value) (isMutable : Bool) :
      Forest (m.declare f x v isMutable) gs
  | declareVar {m : Memory} {gs : List FrameRef} {f : FrameRef} (h : Forest m gs)
      (hf : f < m.frames.size) (x : String) : Forest (m.declareVar f x) gs
  | assign {s s' : State} {gs : List FrameRef} {f : FrameRef} {x : String} {v : Value}
      (h : Forest s.memory gs) (hf : f < s.memory.frames.size)
      (hs : Effect.assign f x v s = .done () s') : Forest s'.memory gs
  | heap {m m' : Memory} {gs : List FrameRef} (h : Forest m gs) (hm : m'.frames = m.frames) :
      Forest m' gs

/-- The laws of scopes. A chain is the only one from its frame and ends in a global frame; a name
means its binding in the nearest frame that binds it. -/
structure ScopeLaws (m : Memory) (gs : List FrameRef) : Prop where
  chain : ∀ f < m.frames.size, ∃ l, ∃ g ∈ gs, m.Chain f l g ∧
    ∀ l' g', m.Chain f l' g' → l' = l ∧ g' = g
  lookup : ∀ {f l g}, m.Chain f l g → ∀ x,
    m.lookup? f x = (m.binder l x).bind fun i => (m.bindingAt? i x).map Binding.value
  /-- An assignment to a constant fails and changes nothing; any other one is a write to the nearest
  binding, or to the global frame if there is none. -/
  assign : ∀ {f l g}, f < m.frames.size → m.Chain f l g → ∀ x v (s : State), s.memory = m →
    m.Constant l x ∧ (∃ e : Fault, e.kind = .typeError ∧ Effect.assign f x v s = .fail e s) ∨
    ¬ m.Constant l x ∧ ∃ m', Effect.assign f x v s = .done () { s with memory := m' } ∧
      m.Written m' ((m.binder l x).getD g) x v
  /-- A `var` goes to the nearest boundary, and only if that does not bind the name. -/
  declareVar : ∀ {f l g}, f < m.frames.size → m.Chain f l g → ∀ x, ∃ i,
    l.find? (fun i => (m.frameAt i).isBoundary) = some i ∧
    (m.isDeclaredHere i x = true → m.declareVar f x = m) ∧
    (m.isDeclaredHere i x = false → ∀ j y, (m.declareVar f x).bindingAt? j y =
      if j = i ∧ y = x then some ⟨.undefined, true⟩ else m.bindingAt? j y)

theorem Planted.declareVar (h : m.Planted gs) (hl : m.Chain f l g) (hf : f < m.frames.size)
    (x : String) : m.varFrame f < m.frames.size ∧ (m.declareVar f x).Planted gs := by
  have hvar : m.varFrame f < m.frames.size :=
    h.mem_lt hl hf (List.mem_of_find?_eq_some (h.varFrame_eq hl hf))
  refine ⟨hvar, ?_⟩
  rw [Memory.declareVar]
  split
  · exact h
  · exact h.declare hvar _ _ _

theorem assign_apply (f : FrameRef) (x : String) (v : Value) (s : State) :
    Effect.assign f x v s =
      match s.memory.writableFrame f x with
      | .ok i => .done () { s with memory := s.memory.declare i x v true }
      | .error e => .fail e s := by
  rw [Effect.assign, Effect.bind_apply, Effect.query]
  cases s.memory.writableFrame f x <;> rfl

theorem Planted.assign (h : m.Planted gs) (hl : m.Chain f l g) (hf : f < m.frames.size)
    (x : String) (v : Value) (s : State) (hs : s.memory = m) :
    m.Constant l x ∧ (∃ e : Fault, e.kind = .typeError ∧ Effect.assign f x v s = .fail e s) ∨
    ¬ m.Constant l x ∧ ∃ m', Effect.assign f x v s = .done () { s with memory := m' } ∧
      m.Written m' ((m.binder l x).getD g) x v := by
  subst hs
  rw [assign_apply]
  by_cases hx : s.memory.Constant l x
  · refine .inl ⟨hx, .constantAssigned, rfl, ?_⟩
    rw [h.writableFrame_of_constant hl hx]
  · obtain ⟨hlt, hwritable⟩ := h.writable (x := x) hl hf
    rw [h.writableFrame_eq hl hx]
    exact .inr ⟨hx, _, rfl, h.written hlt hwritable v⟩

theorem Forest.planted (h : m.Forest gs) : m.Planted gs := by
  induction h with
  | empty =>
      have hnone (f : FrameRef) : Memory.empty.frameAt f = ⟨[], none, true⟩ :=
        frameAt_of_size_le (Nat.zero_le f)
      exact ⟨fun hf => (by rw [hnone] at hf; cases hf), fun hf => absurd hf (Nat.not_lt_zero _),
        nofun, nofun, nofun⟩
  | global _ ih => exact ih.newGlobal
  | child _ hf ih => exact ih.nested hf false
  | function _ hf ih => exact ih.nested hf true
  | declare _ hf x v isMutable ih => exact ih.declare hf x v isMutable
  | declareVar _ hf x ih =>
      obtain ⟨l, g, -, hl⟩ := ih.exists_chain hf
      exact (ih.declareVar hl hf x).2
  | @assign s s' gs f x v _ hf hs ih =>
      obtain ⟨l, g, -, hl⟩ := ih.exists_chain hf
      rw [assign_apply] at hs
      by_cases hx : s.memory.Constant l x
      · rw [ih.writableFrame_of_constant hl hx] at hs
        cases hs
      · rw [ih.writableFrame_eq hl hx] at hs
        cases hs
        exact ih.declare (ih.writable hl hf).1 _ _ _
  | heap _ hm ih =>
      exact ih.of_same (by rw [hm]) fun i => by simp only [frameAt, hm, and_self]

/-- The laws of scopes hold in every forest. -/
theorem Forest.scopeLaws (h : m.Forest gs) : m.ScopeLaws gs := by
  have hm := h.planted
  refine ⟨fun f hf => ?_, hm.lookup?_eq, fun hf hl => hm.assign hl hf, fun hf hl x => ?_⟩
  · obtain ⟨l, g, hg, hl⟩ := hm.exists_chain hf
    exact ⟨l, g, hg, hl, fun l' g' hl' => hl'.unique hl⟩
  · refine ⟨_, hm.varFrame_eq hl hf, fun hx => ?_, fun hx j y => ?_⟩
    · rw [Memory.declareVar, if_pos hx]
    · rw [Memory.declareVar, hx]
      exact bindingAt?_declare (hm.declareVar hl hf x).1 true

/-- In a block of a function that has `c` as a constant. -/
theorem scopeLaws_block : ∃ (m : Memory) (gs : List FrameRef),
    m.Forest gs ∧ m.ScopeLaws gs ∧ m.Chain 2 [2, 1, 0] 0 ∧ m.Constant [2, 1, 0] "c" := by
  let m := ((empty.newGlobal.2.newFrame (some 0) true).2.newFrame (some 1) false).2.declare 1 "c"
    (.number 1) false
  have hm : m.Forest [0] :=
    (((Forest.empty.global).function (by decide)).child (by decide)).declare (by decide) _ _ _
  refine ⟨m, [0], hm, hm.scopeLaws, ?_, ?_⟩
  · exact .outer (by rfl) (.outer (by rfl) (.last (by rfl)))
  · exact ⟨1, .number 1, by rfl, by rfl⟩

end Memory

end SmallScript
