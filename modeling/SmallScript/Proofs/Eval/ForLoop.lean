import SmallScript.Proofs.Eval.FrameEffect
import Mathlib

namespace SmallScript

open Declares Effect Eval

structure ForLoop where
  init : Stmt
  test : Option Expr
  update : Option Expr
  body : Stmt

namespace Memory

variable {m m' : Memory} {f i j : FrameRef} {x : String} {names : List (String × Bool)}

def BindsAll (m : Memory) (i : FrameRef) (names : List (String × Bool)) : Prop :=
  ∀ x isMutable, (x, isMutable) ∈ names → ∃ v, m.bindingAt? i x = some ⟨v, isMutable⟩

/-- The frame `j` has got the names, bound as in the frame `i`. -/
structure Receives (i j : FrameRef) (names : List (String × Bool)) (m m' : Memory) : Prop where
  size : m'.frames.size = m.frames.size
  other : ∀ k ≠ j, m'.frameAt k = m.frameAt k
  parent : (m'.frameAt j).parent = (m.frameAt j).parent
  isBoundary : (m'.frameAt j).isBoundary = (m.frameAt j).isBoundary
  bindings : ∀ x, m'.bindingAt? j x =
    if x ∈ names.map Prod.fst then m.bindingAt? i x else m.bindingAt? j x

structure Copies (f i : FrameRef) (names : List (String × Bool)) (m m' : Memory) : Prop where
  size : m'.frames.size = m.frames.size + 1
  old : ∀ k < m.frames.size, m'.frameAt k = m.frameAt k
  parent : (m'.frameAt m.frames.size).parent = some f
  isBoundary : (m'.frameAt m.frames.size).isBoundary = false
  bindings : ∀ x, m'.bindingAt? m.frames.size x =
    if x ∈ names.map Prod.fst then m.bindingAt? i x else none

end Memory

namespace ForLoop

def stmt (l : ForLoop) : Stmt := .forLoop (some l.init) l.test l.update l.body

/-- The names that every pass has for itself, and whether they are mutable. -/
def names (l : ForLoop) : List (String × Bool) := loopNames (some l.init)

def pass (l : ForLoop) (E : Evaluator) (f : FrameRef) :
    FrameRef × Option Value → Effect ((FrameRef × Option Value) ⊕ Completion) :=
  forPass E f l.names l.test l.update l.body

/-- What is left of a loop when a pass is over and the frame of the next one has been made: the
update, and passes until there have been `n`. -/
def rest (l : ForLoop) (E : Evaluator) (f : FrameRef) (n : Nat) (next : FrameRef × Option Value) :
    Effect Completion := do
  evalMaybe E next.1 l.update
  iterate (l.pass E f) n next

/-- From `s` on the loop comes to its pass number `k`, which begins with the frame `i` in `s₁`. -/
inductive Begins (l : ForLoop) (E : Evaluator) (f : FrameRef) (s : State) :
    Nat → FrameRef → Option Value → State → Prop where
  | first {i : FrameRef} {c : Completion} {s₀ s₁ : State} (hframe : blockFrame f s = .done i s₀)
      (hinit : E.stmt i l.init s₀ = .done c s₁) : Begins l E f s 0 i none s₁
  | next {k : Nat} {i j : FrameRef} {last last' : Option Value} {s₁ s₂ : State}
      (h : Begins l E f s k i last s₁) (hpass : l.pass E f (i, last) s₁ = .done (.inl (j, last')) s₂) :
      Begins l E f s (k + 1) j last' s₂

/-- The test of a pass holds, and its body runs to its end or to a `continue` in it. -/
def Completes (l : ForLoop) (E : Evaluator) (i : FrameRef) (last : Option Value) (s : State)
    (last' : Option Value) (s' : State) : Prop :=
  ∃ c s₁, holds E i l.test s = .done true s₁ ∧ E.stmt i l.body s₁ = .done c s' ∧
    afterPass last c = .inl last'

end ForLoop

/-- It has names, and its body does not declare them again in the same frame. -/
structure ForLoop.Proper (l : ForLoop) : Prop where
  names : l.names ≠ []
  apart : ∀ x b b', (x, b) ∈ l.names → (x, b') ∉ l.body.declares

namespace ForLoop

variable {l : ForLoop} {E : Evaluator} {host : Host} {n k k' m : Nat} {g f i i' j : FrameRef}
  {s s₁ s₁' s₂ s₃ s₄ : State} {last last' : Option Value} {names : List (String × Bool)}

section Steps

theorem pass_of_completes (h : l.Completes E i last s₁ last' s₂)
    (hnext : nextFrame f i l.names s₂ = .done j s₃) :
    l.pass E f (i, last) s₁ =
      (evalMaybe E j l.update >>= fun _ => pure (.inl (j, last'))) s₃ := by
  obtain ⟨c, u, hholds, hbody, hafter⟩ := h
  rw [pass, forPass, bind_apply, hholds]
  simp only [Outcome.bind, if_true]
  rw [bind_apply, hbody]
  simp only [Outcome.bind, hafter]
  rw [bind_apply, hnext]
  rfl

theorem completes_of_pass (h : l.pass E f (i, last) s₁ = .done (.inl (j, last')) s₄) :
    ∃ s₂ s₃, l.Completes E i last s₁ last' s₂ ∧ nextFrame f i l.names s₂ = .done j s₃ ∧
      evalMaybe E j l.update s₃ = .done () s₄ := by
  rw [pass, forPass] at h
  obtain ⟨goesOn, u, hholds, h⟩ := bind_eq_done.mp h
  cases goesOn with
  | false => cases h
  | true =>
      obtain ⟨c, s₂, hbody, h⟩ := bind_eq_done.mp h
      cases hafter : afterPass last c with
      | inr c =>
          rw [hafter] at h
          cases h
      | inl last'' =>
          rw [hafter] at h
          obtain ⟨next, s₃, hnext, h⟩ := bind_eq_done.mp h
          obtain ⟨_, u', hupdate, h⟩ := bind_eq_done.mp h
          cases h
          exact ⟨s₂, s₃, ⟨c, u, hholds, hbody, hafter⟩, hnext, hupdate⟩

theorem iterate_of_completes (h : l.Completes E i last s₁ last' s₂)
    (hnext : nextFrame f i l.names s₂ = .done j s₃) (m : Nat) :
    iterate (l.pass E f) (m + 1) (i, last) s₁ = l.rest E f m (j, last') s₃ := by
  rw [iterate_succ, bind_apply, pass_of_completes h hnext, rest, bind_apply, bind_apply]
  cases evalMaybe E j l.update s₃ <;> rfl

theorem Begins.run (h : l.Begins E f s k i last s₁) (hk : k ≤ E.fuel) :
    evalStmt E f l.stmt s = iterate (l.pass E f) (E.fuel - k) (i, last) s₁ := by
  induction h with
  | first hframe hinit =>
      show evalFor E f (some l.init) l.test l.update l.body s = _
      rw [evalFor, bind_apply, hframe]
      simp only [Outcome.bind]
      rw [bind_apply, hinit]
      rfl
  | @next k i j last last' s₁ s₂ _ hpass ih =>
      rw [ih (Nat.le_of_succ_le hk), show E.fuel - k = E.fuel - (k + 1) + 1 by omega, iterate_succ,
        bind_apply, hpass]
      rfl

theorem Begins.unique (h : l.Begins E f s k i last s₁) (h' : l.Begins E f s k i' last' s₁') :
    i = i' ∧ last = last' ∧ s₁ = s₁' := by
  induction h generalizing i' last' s₁' with
  | first hframe hinit =>
      cases h' with
      | first hframe' hinit' =>
          cases hframe.symm.trans hframe'
          cases hinit.symm.trans hinit'
          exact ⟨rfl, rfl, rfl⟩
  | next _ hpass ih =>
      cases h' with
      | next h' hpass' =>
          obtain ⟨rfl, rfl, rfl⟩ := ih h'
          cases hpass.symm.trans hpass'
          exact ⟨rfl, rfl, rfl⟩

end Steps

end ForLoop

section Copying

variable {m : Memory} {i j : FrameRef} {x : String} {names : List (String × Bool)} {s : State}

theorem Memory.lookup?_of_bindingAt? {b : Binding} (h : m.bindingAt? i x = some b) :
    m.lookup? i x = some b.value := by
  have hhere : m.isDeclaredHere i x = true := isDeclaredHere_iff.mpr ⟨b, h⟩
  have hresolve : m.resolve? i x = some i := by
    rw [resolve?, chainFuel, nearest?]
    exact if_pos hhere
  rw [lookup?, hresolve]
  simp [h]

theorem copyNames_receives (hne : i ≠ j) (hj : j < s.memory.frames.size)
    (hnames : s.memory.BindsAll i names) :
    ∃ s', copyNames i j names s = .done () s' ∧ s.memory.Receives i j names s'.memory := by
  induction names generalizing s with
  | nil => exact ⟨s, rfl, rfl, fun _ _ => rfl, rfl, rfl, fun x => by simp⟩
  | cons y names ih =>
      obtain ⟨y, isMutable⟩ := y
      obtain ⟨v, hv⟩ := hnames y isMutable (List.mem_cons_self ..)
      have hframe (k : FrameRef) (hk : k ≠ j) :
          (s.memory.declare j y v isMutable).frameAt k = s.memory.frameAt k := by
        rw [Memory.declare, Memory.frameAt_modifyFrame s.memory hj, if_neg (Ne.symm hk)]
      have hbinding (x : String) : (s.memory.declare j y v isMutable).bindingAt? i x =
          s.memory.bindingAt? i x := by
        rw [Memory.bindingAt?, hframe i hne]
        rfl
      let s₁ : State := { s with memory := s.memory.declare j y v isMutable }
      obtain ⟨s', hdone, hreceives⟩ := ih (s := s₁) (by simpa [s₁] using hj) fun x b hx => by
        rw [hbinding]
        exact hnames x b (List.mem_cons_of_mem _ hx)
      refine ⟨s', ?_, ?_, ?_, ?_, ?_, ?_⟩
      · rw [copyNames, bind_apply]
        simp only [look, Outcome.bind, Memory.lookup?_of_bindingAt? hv]
        exact hdone
      · simpa [s₁] using hreceives.size
      · exact fun k hk => (hreceives.other k hk).trans (hframe k hk)
      · exact hreceives.parent.trans (Memory.frameAt_declare hj isMutable j).1
      · exact hreceives.isBoundary.trans (Memory.frameAt_declare hj isMutable j).2
      · intro x
        rw [hreceives.bindings, hbinding, Memory.bindingAt?_declare hj]
        by_cases hx : x = y
        · subst x
          simp [hv]
        · simp [hx]

theorem nextFrame_copies (f : FrameRef) (hne : names ≠ []) (hi : i < s.memory.frames.size)
    (hnames : s.memory.BindsAll i names) :
    ∃ s', nextFrame f i names s = .done s.memory.frames.size s' ∧
      s.memory.Copies f i names s'.memory := by
  have hopens := s.opens_withFrame f false
  have hold (k : FrameRef) (hk : k < s.memory.frames.size) :
      (s.withFrame f false).memory.frameAt k = s.memory.frameAt k := by
    rw [State.withFrame, Memory.frameAt_newFrame, if_neg (Nat.ne_of_lt hk)]
  have hbinding (x : String) : (s.withFrame f false).memory.bindingAt? i x =
      s.memory.bindingAt? i x := by
    rw [Memory.bindingAt?, hold i hi]
    rfl
  obtain ⟨s', hdone, hreceives⟩ := copyNames_receives (s := s.withFrame f false)
    (Nat.ne_of_lt hi) hopens.lt fun x b hx => by
      rw [hbinding]
      exact hnames x b hx
  refine ⟨s', ?_, ?_, ?_, ?_, ?_, ?_⟩
  · rw [Discipline.nextFrame_cons f i hne, bind_apply, Discipline.blockFrame_apply]
    simp only [Outcome.bind]
    rw [bind_apply, hdone]
    rfl
  · rw [hreceives.size]
    simp [State.withFrame]
  · exact fun k hk => (hreceives.other k (Nat.ne_of_lt hk)).trans (hold k hk)
  · exact hreceives.parent.trans hopens.parent
  · exact hreceives.isBoundary.trans hopens.isBoundary
  · intro x
    rw [hreceives.bindings, hbinding, s.bindingAt?_withFrame]

end Copying

section Binding

variable {m m' : Memory} {f i : FrameRef} {names xs : List (String × Bool)}

theorem Memory.Copies.grows (h : m.Copies f i names m') : m.Grows nowhere m' where
  size_le := h.size ▸ Nat.le_succ _
  parent k hk := by rw [h.old k hk]
  isBoundary k hk := by rw [h.old k hk]
  change k hk x := by
    rw [bindingAt?, bindingAt?, h.old k hk]
    exact .same _

theorem Memory.BindsAll.grows (h : m.BindsAll i names) (hgrows : m.Grows (inFrame i xs) m')
    (hxs : ∀ x b b', (x, b) ∈ names → (x, b') ∈ xs → b' = b) : m'.BindsAll i names := by
  intro x isMutable hx
  obtain ⟨v, hv⟩ := h x isMutable hx
  have hchange := hgrows.change i (lt_size_of_bindingAt? hv) x
  rw [hv] at hchange
  generalize m'.bindingAt? i x = b' at hchange
  cases hchange with
  | same => exact ⟨v, rfl⟩
  | written v w => exact ⟨w, rfl⟩
  | declared _ w isMutable' hd => exact ⟨w, hxs x isMutable isMutable' hx hd.2 ▸ rfl⟩

end Binding

namespace ForLoop

/-- The loop is in the frame `i`, which was made for a pass after the state `s`. -/
structure InFrame (l : ForLoop) (g f : FrameRef) (s : State) (i : FrameRef) (s₁ : State) : Prop where
  rooted : s₁.memory.Rooted g
  opens : s.Opens f false i s₁
  binds : s₁.memory.BindsAll i l.names

variable {l : ForLoop} {E : Evaluator} {host : Host} {n k k' m : Nat} {g f i i' j : FrameRef}
  {s s' s₁ s₁' s₂ s₃ s₄ : State} {last last' : Option Value} {xs : List (String × Bool)}

namespace InFrame

theorem lt (h : l.InFrame g f s i s₁) : i < s₁.memory.frames.size := h.opens.lt

theorem outer_lt (h : l.InFrame g f s i s₁) (hf : f < s.memory.frames.size) :
    f < s₁.memory.frames.size :=
  Nat.lt_of_lt_of_le hf h.opens.memory.size_le

theorem grows (h : l.InFrame g f s i s₁) (hrooted : s₂.memory.Rooted g)
    (hgrows : s₁.Grows (inFrame i xs) s₂)
    (hxs : ∀ x b b', (x, b) ∈ l.names → (x, b') ∈ xs → b' = b) : l.InFrame g f s i s₂ :=
  ⟨hrooted, h.opens.grows (hgrows.since h.opens.fresh).memory, h.binds.grows hgrows.memory hxs⟩

theorem grows_nowhere (h : l.InFrame g f s i s₁) (hrooted : s₂.memory.Rooted g)
    (hgrows : s₁.Grows nowhere s₂) : l.InFrame g f s i s₂ := by
  have hempty : s₁.Grows (inFrame i []) s₂ := hgrows.of_nowhere
  exact h.grows hrooted hempty fun _ _ _ _ hx => by cases hx

/-- The new frame of the next pass is one to be in. -/
theorem next (h : l.InFrame g f s i s₂) (hf : f < s.memory.frames.size) (hne : l.names ≠ [])
    (hnext : nextFrame f i l.names s₂ = .done j s₃) :
    l.InFrame g f s j s₃ ∧ s₂.Grows nowhere s₃ ∧ j = s₂.memory.frames.size ∧
      s₂.memory.Copies f i l.names s₃.memory := by
  obtain ⟨u, hdone, hcopies⟩ := nextFrame_copies f hne h.lt h.binds
  cases hdone.symm.trans hnext
  have hready : (Discipline.free g fun _ => True).ready [] f [l.stmt] s₂ :=
    ⟨h.outer_lt hf, trivial⟩
  have hpass : (Discipline.free g fun _ => True).ready [.loop (some l.init) l.body] i [l.body] s₂ :=
    ⟨h.lt, trivial⟩
  obtain ⟨htracks, -⟩ := Discipline.tracksTo_nextFrame (p := .top) trivial trivial h.opens.fresh
    hpass (.refl _ s₂) (Discipline.free_holds h.rooted) h.opens.memory.size_le hready
  obtain ⟨hholds, hgrows⟩ := htracks.done hnext
  refine ⟨⟨hholds.rooted, ⟨h.opens.memory.size_le, ?_, hcopies.parent, hcopies.isBoundary, ?_⟩, ?_⟩,
    ⟨hgrows.depth, hcopies.grows⟩, rfl, hcopies⟩
  · rw [hcopies.size]
    exact Nat.lt_succ_self _
  · exact (h.opens.memory.of_nowhere.trans hgrows.memory).nowhere_of_since
  · intro x isMutable hx
    rw [hcopies.bindings, if_pos (List.mem_map_of_mem hx)]
    exact h.binds x isMutable hx

end InFrame

section Runs

variable (hE : (Discipline.free g fun _ => True).Related (fun _ => E) E)

include hE

theorem holds_leads {e : Option Expr} {b : Bool} (hm : s.memory.Rooted g)
    (hi : i < s.memory.frames.size) (h : holds E i e s = .done b s') :
    s'.memory.Rooted g ∧ s.Grows nowhere s' := by
  have hhere : (Discipline.free g fun _ => True).here [] i s := ⟨hi, trivial⟩
  exact ((hE.holds (Discipline.free_good _) (Discipline.free_holds hm) hhere).done h).imp_left
    Discipline.Holds.rooted

theorem evalMaybe_leads {e : Option Expr} (hm : s.memory.Rooted g)
    (hi : i < s.memory.frames.size) (h : evalMaybe E i e s = .done () s') :
    s'.memory.Rooted g ∧ s.Grows nowhere s' := by
  have hhere : (Discipline.free g fun _ => True).here [] i s := ⟨hi, trivial⟩
  exact ((hE.evalMaybe (Discipline.free_good _) (Discipline.free_holds hm) hhere).done h).imp_left
    Discipline.Holds.rooted

theorem stmt_leads {t : Stmt} {c : Completion} (hm : s.memory.Rooted g)
    (hi : i < s.memory.frames.size) (h : E.stmt i t s = .done c s') :
    s'.memory.Rooted g ∧ s.Grows (inFrame i t.declares) s' := by
  have hready : (Discipline.free g fun _ => True).ready [] i [t] s := ⟨hi, trivial⟩
  exact ((hE.stmt (p := .top) (Discipline.free_good _) (Discipline.free_holds hm) hready).done
    h).imp_left Discipline.Holds.rooted

theorem evalDeclarators_leads {kind : DeclKind} {ds : List (String × Option Expr)}
    (hm : s.memory.Rooted g) (hi : i < s.memory.frames.size)
    (h : evalDeclarators E i kind ds s = .done () s') :
    s'.memory.Rooted g ∧ s.Grows (inFrame i (Stmt.decl kind ds).declares) s' := by
  have hhere (s' : State) (hgrows : s.Grows (inFrame i (Stmt.decl kind ds).declares) s') :
      (Discipline.free g fun _ => True).here [] i s' :=
    ⟨Nat.lt_of_lt_of_le hi hgrows.size_le, trivial⟩
  have htracks := hE.evalDeclarators (Discipline.free_good _) (Discipline.free_holds hm) hhere
    (List.Subset.refl _) fun _ _ _ _ _ _ => trivial
  exact (htracks.done h).imp_left Discipline.Holds.rooted

omit hE in
theorem store_eq_declare {kind : DeclKind} (hkind : kind ≠ .var) (i : FrameRef) :
    ∃ isMutable, (∀ x v, ∃ w, store i kind x v = declare i x w isMutable) ∧
      ∀ ds, (Stmt.decl kind ds).declares = ds.map fun d => (d.1, isMutable) := by
  cases kind with
  | var => exact (hkind rfl).elim
  | letDecl => exact ⟨true, fun _ _ => ⟨_, rfl⟩, fun _ => rfl⟩
  | constDecl => exact ⟨false, fun _ _ => ⟨_, rfl⟩, fun _ => rfl⟩

theorem evalDeclarators_binds {kind : DeclKind} (hkind : kind ≠ .var)
    {ds : List (String × Option Expr)} (hm : s.memory.Rooted g) (hi : i < s.memory.frames.size)
    (h : evalDeclarators E i kind ds s = .done () s') :
    s'.memory.BindsAll i (Stmt.decl kind ds).declares := by
  obtain ⟨b, hstores, hdeclares⟩ := store_eq_declare hkind i
  induction ds generalizing s with
  | nil =>
      rw [hdeclares]
      exact fun _ _ hx => by cases hx
  | cons d ds ih =>
      obtain ⟨x, init⟩ := d
      rw [evalDeclarators_cons] at h
      obtain ⟨v, s₁, hinit, h⟩ := bind_eq_done.mp h
      obtain ⟨_, s₂, hstore, h⟩ := bind_eq_done.mp h
      have hhere : (Discipline.free g fun _ => True).here [] i s := ⟨hi, trivial⟩
      obtain ⟨hs₁, h₁⟩ := (hE.evalInit (Discipline.free_good _) (Discipline.free_holds hm)
        hhere).done hinit
      have hi₁ := Nat.lt_of_lt_of_le hi h₁.size_le
      obtain ⟨w, hw⟩ := hstores x v
      rw [hw] at hstore
      obtain rfl : s₂ = { s₁ with memory := s₁.memory.declare i x w b } := by
        cases hstore
        rfl
      have hm₂ := hs₁.rooted.declare (x := x) (v := w) hi₁ b
      have hi₂ : i < (s₁.memory.declare i x w b).frames.size := by simpa using hi₁
      have hhead : (s₁.memory.declare i x w b).BindsAll i [(x, b)] := by
        intro y b' hy
        obtain ⟨rfl, rfl⟩ := Prod.mk.inj (List.mem_singleton.mp hy)
        exact ⟨w, by rw [Memory.bindingAt?_declare hi₁, if_pos ⟨rfl, rfl⟩]⟩
      have hkept := hhead.grows (evalDeclarators_leads hE hm₂ hi₂ h).2.memory (by
        simp only [hdeclares, List.mem_singleton, List.mem_map, Prod.mk.injEq]
        rintro y b' b'' ⟨-, rfl⟩ ⟨d, -, -, rfl⟩
        rfl)
      have hrest := ih hm₂ hi₂ h
      rw [hdeclares] at hrest ⊢
      intro y b' hy
      rcases List.mem_cons.mp hy with hy | hy
      · exact hkept y b' (List.mem_singleton.mpr hy)
      · exact hrest y b' hy

theorem InFrame.completes (h : l.InFrame g f s i s₁) (hl : l.Proper)
    (hc : l.Completes E i last s₁ last' s₂) : l.InFrame g f s i s₂ := by
  obtain ⟨c, u, hholds, hbody, -⟩ := hc
  obtain ⟨hm, hgrows⟩ := holds_leads hE h.rooted h.lt hholds
  have hu := h.grows_nowhere hm hgrows
  obtain ⟨hm', hgrows'⟩ := stmt_leads hE hu.rooted hu.lt hbody
  exact hu.grows hm' hgrows' fun x b b' hx hx' => (hl.apart x b b' hx hx').elim

theorem InFrame.pass (h : l.InFrame g f s i s₁) (hl : l.Proper) (hf : f < s.memory.frames.size)
    (hpass : l.pass E f (i, last) s₁ = .done (.inl (j, last')) s₂) :
    l.InFrame g f s j s₂ ∧ i < j := by
  obtain ⟨u, v, hcompletes, hnext, hupdate⟩ := completes_of_pass hpass
  have hu := h.completes hE hl hcompletes
  obtain ⟨hv, -, hj, -⟩ := hu.next hf hl.names hnext
  obtain ⟨hm, hgrows⟩ := evalMaybe_leads hE hv.rooted hv.lt hupdate
  exact ⟨hv.grows_nowhere hm hgrows, hj ▸ hu.lt⟩

theorem rest_grows (h : l.InFrame g f s j s₃) (hs₂ : s₂.Grows nowhere s₃)
    (hj : s₂.memory.frames.size ≤ j) (hf : f < s₂.memory.frames.size) (last : Option Value) (m : Nat)
    (hend : (l.rest E f m (j, last) s₃).state? = some s') :
    s'.memory.Rooted g ∧ s₂.memory.Grows nowhere s'.memory := by
  have hhere : (Discipline.free g fun _ => True).here [] j s₃ := ⟨h.lt, trivial⟩
  have hready : (Discipline.free g fun _ => True).ready [] f [l.stmt] s₂ := ⟨hf, trivial⟩
  have htracks : (Discipline.free g fun _ => True).Tracks (since s₂.memory.frames.size)
      (l.rest E f m (j, last)) (l.rest E f m (j, last)) s₃ := by
    refine (hE.evalMaybe (Discipline.free_good _) (Discipline.free_holds h.rooted)
      hhere).of_nowhere.bind fun _ s₄ _ hs₄ h₄ => ?_
    refine Discipline.tracks_iterate
      (I := fun pass s' => s₂.Grows (since s₂.memory.frames.size) s' ∧
        s₂.memory.frames.size ≤ pass.1 ∧ (Discipline.free g fun _ => True).ready
          [.loop (some l.init) l.body] pass.1 [l.body] s')
      (fun pass s' hs' hI => ?_) m (j, last) hs₄
      ⟨hs₂.of_nowhere.trans h₄, hj, Nat.lt_of_lt_of_le h.lt h₄.size_le, trivial⟩
    exact hE.forPass (p := .top) (Discipline.free_good _) hready pass hs' hI.1 hI.2.1
      hI.2.2
  obtain ⟨hholds, hleads⟩ := htracks.2 s' hend
  exact ⟨hholds.rooted, (hs₂.memory.of_nowhere.trans hleads.grows.memory).nowhere_of_since⟩

end Runs

theorem init_of_names (h : l.names ≠ []) :
    ∃ kind ds, l.init = .decl kind ds ∧ kind ≠ .var ∧ l.names = l.init.declares := by
  have hnames : l.names = l.init.declares := by
    simpa [names, declaredBy] using loopNames_eq h
  cases hinit : l.init with
  | decl kind ds =>
      refine ⟨kind, ds, rfl, ?_, hinit ▸ hnames⟩
      rintro rfl
      rw [names, hinit] at h
      exact h rfl
  | _ =>
      rw [names, hinit] at h
      exact (h rfl).elim

/-- The head declares the names of the first pass, and later ones have copies. -/
theorem Begins.inFrame (hl : l.Proper) (hm : s.memory.Rooted g) (hf : f < s.memory.frames.size)
    (h : l.Begins (evaluator host n) f s k i last s₁) : l.InFrame g f s i s₁ := by
  have hrelated (n : Nat) :=
    Discipline.related_self (K := .free g fun _ => True) (fun _ => trivial) host n
  induction h with
  | @first i c s₀ s₁ hframe hinit =>
      obtain ⟨kind, ds, hdecl, hkind, hnames⟩ := init_of_names hl.names
      cases hframe
      have hopens := s.opens_withFrame f false
      have hm₀ := hm.newFrame hf false
      obtain ⟨hm₁, hgrows⟩ := stmt_leads (hrelated n) hm₀ hopens.lt hinit
      refine ⟨hm₁, hopens.grows (hgrows.since (Nat.le_refl _)).memory, ?_⟩
      rw [hnames]
      rw [hdecl] at hinit ⊢
      cases n with
      | zero => cases hinit
      | succ n =>
          obtain ⟨_, u, hdeclared, hresult⟩ := bind_eq_done.mp hinit
          cases hresult
          exact evalDeclarators_binds (hrelated n) hkind hm₀ hopens.lt hdeclared
  | next _ hpass ih => exact (ih.pass (hrelated n) hl hf hpass).1

/-- The body of a pass leaves the names of the head in its frame. -/
theorem Begins.inFrame_of_completes (hl : l.Proper) (hm : s.memory.Rooted g)
    (hf : f < s.memory.frames.size) (h : l.Begins (evaluator host n) f s k i last s₁)
    (hc : l.Completes (evaluator host n) i last s₁ last' s₂) : l.InFrame g f s i s₂ := by
  have hrelated := Discipline.related_self (K := .free g fun _ => True) (fun _ => trivial) host n
  exact (h.inFrame hl hm hf).completes hrelated hl hc

theorem Begins.lt_of_lt (hl : l.Proper) (hm : s.memory.Rooted g) (hf : f < s.memory.frames.size)
    (h : l.Begins (evaluator host n) f s k i last s₁)
    (h' : l.Begins (evaluator host n) f s k' i' last' s₁') (hk : k < k') : i < i' := by
  have hrelated := Discipline.related_self (K := .free g fun _ => True) (fun _ => trivial) host n
  induction h' with
  | first => exact (Nat.not_lt_zero k hk).elim
  | @next k' i' j last' last'' s₁' s₂ h' hpass ih =>
      have hlt := ((h'.inFrame hl hm hf).pass hrelated hl hf hpass).2
      rcases Nat.lt_or_eq_of_le (Nat.le_of_lt_succ hk) with hk | rfl
      · exact Nat.lt_trans (ih hk) hlt
      · obtain ⟨rfl, -, -⟩ := h.unique h'
        exact hlt

/-- The third pass has the third frame behind the global one. -/
example : ∃ last s, (ForLoop.mk (.decl .letDecl [("x", some (.bool true))]) none none .empty).Begins
    (evaluator ⟨8, fun _ => none⟩ 3) 0 ⟨Memory.empty.newGlobal.2, "", 0, 0⟩ 2 3 last s :=
  ⟨_, _, .next (.next (.first rfl rfl) rfl) rfl⟩

end ForLoop

end SmallScript
