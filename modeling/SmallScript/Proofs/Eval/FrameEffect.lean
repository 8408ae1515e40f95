import SmallScript.Proofs.Eval.Tracking.Program
import Mathlib

namespace SmallScript

open Declares

namespace Memory

variable {m m' : Memory} {g i : FrameRef} {x : String}

def mutability? (m : Memory) (i : FrameRef) (x : String) : Option Bool :=
  (m.bindingAt? i x).map Binding.isMutable

/-- The frames of `m` are in `m'` with the same parents, names and mutability, but the global one may
have got further mutable bindings. -/
def KeepsFrames (g : FrameRef) (m m' : Memory) : Prop :=
  ∀ i < m.frames.size, (m'.frameAt i).parent = (m.frameAt i).parent ∧
    ∀ x, m'.mutability? i x = m.mutability? i x ∨
      i = g ∧ m.mutability? i x = none ∧ m'.mutability? i x = some true

theorem Grows.keepsFrames (h : m.Grows nowhere m') (hm : m.Rooted g) : KeepsFrames g m m' := by
  intro i hi
  refine ⟨h.parent i hi, fun x => ?_⟩
  have hchange := h.change i hi x
  rw [mutability?, mutability?]
  generalize m.bindingAt? i x = b at hchange
  generalize m'.bindingAt? i x = b' at hchange
  cases hchange with
  | same => exact .inl rfl
  | written v w => exact .inl rfl
  | gained v hglobal => exact .inr ⟨hm.parent_none hi hglobal, rfl, rfl⟩
  | declared _ _ _ hd => exact hd.elim

end Memory

namespace Eval

open Effect Comparison

/-- All that is asked for is that the frame is there, and something of the memory that stays. -/
def Discipline.stable (g : FrameRef) (gains : String → Prop) (P : Memory → Prop)
    (hP : ∀ {d m m'}, P m → m.Grows d m' → P m') : Discipline where
  global := g
  gains := gains
  ok _ := True
  here _ f s := f < s.memory.frames.size ∧ P s.memory
  ready _ f _ s := f < s.memory.frames.size ∧ P s.memory
  ok_empty := trivial
  here_lt h := h.1
  here_grows h hgrows := ⟨Nat.lt_of_lt_of_le h.1 hgrows.size_le, hP h.2 hgrows.memory⟩
  ready_here h hgrows := ⟨Nat.lt_of_lt_of_le h.1 hgrows.size_le, hP h.2 hgrows.memory⟩
  ready_grows h hgrows := ⟨Nat.lt_of_lt_of_le h.1 hgrows.size_le, hP h.2 hgrows.memory⟩
  ready_head h := h
  ready_tail h hgrows := ⟨Nat.lt_of_lt_of_le h.1 hgrows.size_le, hP h.2 hgrows.memory⟩
  ready_then h _ := h
  ready_else h _ := h
  ready_while h _ hgrows := ⟨Nat.lt_of_lt_of_le h.1 hgrows.size_le, hP h.2 hgrows.memory⟩
  ready_do h _ hgrows := ⟨Nat.lt_of_lt_of_le h.1 hgrows.size_le, hP h.2 hgrows.memory⟩
  ready_again h _ hgrows := ⟨Nat.lt_of_lt_of_le h.1 hgrows.size_le, hP h.2 hgrows.memory⟩
  ready_opens h _ _ _ _ hopens _ _ _ := ⟨hopens.lt, hP h.2 hopens.memory⟩
  ready_call h _ hopens _ _ _ _ := ⟨hopens.lt, hP h.2 hopens.memory⟩

def Discipline.free (g : FrameRef) (gains : String → Prop) : Discipline :=
  .stable g gains (fun _ => True) fun _ _ => trivial

namespace Discipline

variable {host : Host} {g f : FrameRef} {gains : String → Prop} {s s' : State}

theorem free_good (xs : List Part) : (free g gains).Good xs := fun _ _ => trivial

theorem free_holds (hm : s.memory.Rooted g) : (free g gains).Holds s :=
  ⟨hm, fun _ _ => free_good _⟩

theorem evaluator_leads (hm : s.memory.Rooted g) (hf : f < s.memory.frames.size) (n : Nat)
    (e : Expr) (h : ((evaluator host n).expr f e s).state? = some s') :
    s'.memory.Rooted g ∧ s.Grows nowhere s' := by
  have hrelated := related_self (K := free g fun _ => True) (fun _ => trivial) host n
  have hhere : (free g fun _ => True).here [] f s := ⟨hf, trivial⟩
  obtain ⟨hholds, hleads⟩ := (hrelated.expr (free_good _) (free_holds hm) hhere).2 s' h
  exact ⟨hholds.rooted, hleads.grows⟩

end Discipline

section Creation

variable {host : Host} {D E : Evaluator} {f : FrameRef} {x : String} {s s' : State}

theorem done_of_below {α : Type} {post : α → Prop} {y z : Effect α} {a : α}
    (h : (below host).AgreeOn post y z) (hy : y s = .done a s') : z s = .done a s' := by
  rcases (h s (Contract.lax_holds s)).1 with hgives | hsame
  · rw [hgives] at hy
    cases hy
  · exact hsame.symm.trans hy

theorem assigned_below (h : (below host).Related D E) (op : AssignOp) (l r : Expr) :
    (below host).Agree (assigned D f op l r) (assigned E f op l r) := by
  refine (h.evalTarget f l (Contract.lax_good _) (.inr trivial)).bind fun target => ?_
  have hr := h.expr f r (Contract.lax_good _)
  cases op with
  | set => exact hr.bind fun _ => agree_pure trivial
  | _ =>
      refine (agree_read f target).bind fun old => hr.bind fun new => ?_
      exact (agree_look _).bind fun _ => agree_pure trivial

theorem evalInit_below (h : (below host).Related D E) (init : Option Expr) :
    (below host).Agree (evalInit D f init) (evalInit E f init) := by
  cases init with
  | none => exact agree_pure trivial
  | some e =>
      simp only [evalInit, map_eq_pure_bind]
      exact (h.expr f e (Contract.lax_good _)).bind fun _ => agree_pure trivial

theorem stores_of_below (h : (below host).Related D E) {kind : DeclKind} {v : Option Value}
    {ds : List (String × Option Expr)} (hstores : Stores D f kind x v s' ds s) :
    Stores E f kind x v s' ds s := by
  induction hstores with
  | here hinit => exact .here (done_of_below (evalInit_below h _) hinit)
  | later hinit hstore _ ih => exact .later (done_of_below (evalInit_below h _) hinit) hstore ih

theorem ExprCreates.of_below (h : (below host).Related D E) {e : Expr}
    (hcreates : ExprCreates D f x e s) : ExprCreates E f x e s := by
  obtain ⟨op, l, r, v, s', rfl, hdone, hnone⟩ := hcreates
  exact ⟨op, l, r, v, s', rfl, done_of_below (assigned_below h op l r) hdone, hnone⟩

theorem StmtCreates.of_below (h : (below host).Related D E) {t : Stmt}
    (hcreates : StmtCreates D f x t s) : StmtCreates E f x t s := by
  obtain ⟨ds, v, s', rfl, hstores, hnone⟩ := hcreates
  exact ⟨ds, v, s', rfl, stores_of_below h hstores, hnone⟩

open Classical in
/-- The moments at which a name without a binding is about to be assigned. -/
noncomputable def creating (x : String) : Spots :=
  ⟨fun E f e s => ExprCreates E f x e s, fun E f t s => StmtCreates E f x t s⟩

/-- A run that gives up before it assigns to `x` where that is not bound. -/
noncomputable def sparing (host : Host) (x : String) : Nat → Evaluator :=
  diverted host (creating x) silent

theorem exprIn_const (E : Evaluator) (ctx : Context) (f : FrameRef) (e : Expr) :
    exprIn host (fun _ => E) ctx f e = evalExpr host E f e := by
  cases e <;> rfl

theorem stmtIn_const (E : Evaluator) (ctx : Context) (f : FrameRef) (t : Stmt) :
    stmtIn (fun _ => E) ctx f t = evalStmt E f t := by
  cases t with
  | tryCatch body handler finalizer =>
      show tryIn (fun _ => E) ctx f body handler finalizer = evalTry E f body handler finalizer
      rw [evalTry, attempt, bind_assoc]
      rfl
  | _ => rfl

open Classical in
theorem Discipline.sparing_related (host : Host) (g : FrameRef) (x : String) (n : Nat) :
    (Discipline.free g (· ≠ x)).Related (fun _ => sparing host x n) (sparing host x n) := by
  induction n with
  | zero => exact ⟨fun _ => rfl, fun _ _ _ => tracks_exhausted, fun _ _ _ => tracks_exhausted⟩
  | succ n ih =>
      have hbelow := silent_below_evaluator host (creating x) n
      refine ⟨fun _ => rfl, fun {ctx f e s} he hs hhere => ?_, fun {ctx p f t s} ht hs hready => ?_⟩
      · by_cases hcreates : ExprCreates (evaluator host n) f x e s
        · rw [Tracks, sparing, diverted_expr_spot (decide_eq_true hcreates)]
          exact tracks_exhausted
        · have hstep : (free g (· ≠ x)).Tracks nowhere
              (exprIn host (fun _ => sparing host x n) ctx f e)
              (evalExpr host (sparing host x n) f e) s :=
            ih.exprIn he hs hhere fun y hy hxy => hcreates ((hxy ▸ hy).of_below hbelow)
          rw [exprIn_const] at hstep
          rw [Tracks, sparing, diverted_expr (decide_eq_false hcreates)]
          exact hstep
      · by_cases hcreates : StmtCreates (evaluator host n) f x t s
        · rw [Tracks, sparing, diverted_stmt_spot (decide_eq_true hcreates)]
          exact tracks_exhausted
        · have hstep := ih.stmtIn ht hs hready
            fun y hy hxy => hcreates ((hxy ▸ hy).of_below hbelow)
          rw [stmtIn_const] at hstep
          rw [Tracks, sparing, diverted_stmt (decide_eq_false hcreates)]
          exact hstep

/-- Only an assignment to a name that is not bound where it is made gives the global frame a name. -/
theorem unbound_of_sparing {g : FrameRef} (hm : s.memory.Rooted g) (hf : f < s.memory.frames.size)
    {n : Nat} {e : Expr} (hsame : (sparing host x n).expr f e s = (evaluator host n).expr f e s)
    (hend : ((evaluator host n).expr f e s).state? = some s')
    (hnone : s.memory.bindingAt? g x = none) : s'.memory.bindingAt? g x = none := by
  have hhere : (Discipline.free g (· ≠ x)).here [] f s := ⟨hf, trivial⟩
  have htracks := (Discipline.sparing_related host g x n).expr
    (Discipline.free_good (exprParts e)) (Discipline.free_holds hm) hhere
  obtain ⟨-, hleads⟩ := htracks.2 s' (hsame ▸ hend)
  exact hleads.spares hm.global_lt x (fun hx => hx rfl) (fun _ hd => hd.elim) hnone

end Creation

section Assignment

variable {host : Host} {E : Evaluator} {f g : FrameRef} {x : String} {v : Value} {s s' : State}

theorem evalTarget_bare (E : Evaluator) (f : FrameRef) (e : Expr) :
    evalTarget E f e = evalTarget E f e.bare := by
  fun_induction Expr.bare e with
  | case1 e ih => rw [evalTarget, ih]
  | case2 => rfl

theorem writableFrame_eq {m : Memory} {i : FrameRef} (h : m.writableFrame f x = .ok i) :
    i = (m.resolve? f x).getD (m.outermost f) := by
  rw [Memory.writableFrame] at h
  cases hx : m.resolve? f x with
  | none =>
      rw [hx] at h
      cases h
      rfl
  | some j =>
      rw [hx] at h
      simp only at h
      split at h
      · cases h
      · cases h
        rfl

theorem assign_eq_done (h : assign f x v s = .done () s') :
    ∃ i, s.memory.writableFrame f x = .ok i ∧ s'.memory = s.memory.declare i x v true := by
  obtain ⟨i, s₁, hi, hs'⟩ := bind_eq_done.mp h
  rw [query] at hi
  cases hw : s.memory.writableFrame f x with
  | error e =>
      rw [hw] at hi
      cases hi
  | ok j =>
      rw [hw] at hi
      cases hi
      cases hs'
      exact ⟨i, rfl, rfl⟩

/-- The right hand side is evaluated in the state of the assignment, and what follows changes
nothing before the write. -/
theorem assigned_name {op : AssignOp} {l r : Expr} (hl : l.bare = .ident x) {p : Target × Value}
    (h : assigned E f op l r s = .done p s') :
    p.1 = .name x ∧ ∃ w, E.expr f r s = .done w s' := by
  rw [assigned, evalTarget_bare, hl, evalTarget, pure_bind] at h
  cases op with
  | set =>
      obtain ⟨w, s₁, hr, hp⟩ := bind_eq_done.mp h
      cases hp
      exact ⟨rfl, w, hr⟩
  | _ =>
      obtain ⟨old, s₁, hold, h⟩ := bind_eq_done.mp h
      obtain ⟨new, s₂, hr, h⟩ := bind_eq_done.mp h
      obtain ⟨w, s₃, hlook, hp⟩ := bind_eq_done.mp h
      obtain ⟨rfl, -⟩ := Discipline.resolve?_of_read hold
      cases hlook
      cases hp
      exact ⟨rfl, new, hr⟩

/-- The binding that is written is the one that the name had before the right hand side ran. -/
theorem assign_writes_resolved (hm : s.memory.Rooted g) (hf : f < s.memory.frames.size) {n : Nat}
    {op : AssignOp} {l r : Expr} (hl : l.bare = .ident x)
    (h : (evaluator host (n + 1)).expr f (.assign op l r) s = .done v s') :
    ∃ w s₁, (evaluator host n).expr f r s = .done w s₁ ∧
      s'.memory = s₁.memory.declare ((s.memory.resolve? f x).getD g) x v true := by
  have hassign : evalAssign (evaluator host n) f op l r s = .done v s' := h
  rw [evalAssign_eq] at hassign
  obtain ⟨⟨target, u⟩, s₁, hassigned, hwrite⟩ := bind_eq_done.mp hassign
  obtain ⟨rfl, w, hr⟩ := assigned_name hl hassigned
  obtain ⟨_, s₂, hstored, hresult⟩ := bind_eq_done.mp hwrite
  cases hresult
  obtain ⟨i, hi, hmemory⟩ := assign_eq_done hstored
  have hend : ((evaluator host n).expr f r s).state? = some s₁ := by
    rw [hr]
    rfl
  obtain ⟨hm₁, hgrows⟩ := Discipline.evaluator_leads hm hf n r hend
  refine ⟨w, s₁, hr, ?_⟩
  rw [hmemory, writableFrame_eq hi, hm₁.outermost_eq (Nat.lt_of_lt_of_le hf hgrows.size_le),
    hgrows.memory.resolve?_getD hm hm₁ hf]

end Assignment

/-- From the state `s` on, the evaluation of an expression leaves the frames of the memory as they
are, but for the names that it gives to the global frame by assignments; and an assignment writes
where its name was bound before its right hand side ran. -/
structure FrameEffect (host : Host) (g : FrameRef) (s : State) : Prop where
  keeps : ∀ n f e s', f < s.memory.frames.size →
    ((evaluator host n).expr f e s).state? = some s' → s.memory.KeepsFrames g s'.memory
  creates : ∀ n f e s' x, f < s.memory.frames.size →
    ((evaluator host n).expr f e s).state? = some s' →
    s.memory.bindingAt? g x = none → s'.memory.bindingAt? g x ≠ none →
    (sparing host x n).expr f e s ≠ (evaluator host n).expr f e s
  assigns : ∀ n f op l r x v s', f < s.memory.frames.size → l.bare = .ident x →
    (evaluator host (n + 1)).expr f (.assign op l r) s = .done v s' →
    ∃ w s₁, (evaluator host n).expr f r s = .done w s₁ ∧
      s'.memory = s₁.memory.declare ((s.memory.resolve? f x).getD g) x v true

theorem frameEffect_of_rooted (host : Host) {g : FrameRef} {s : State} (hm : s.memory.Rooted g) :
    FrameEffect host g s where
  keeps n _ e _ hf h := (Discipline.evaluator_leads hm hf n e h).2.memory.keepsFrames hm
  creates _ _ _ _ _ hf h hnone hsome hsame := hsome (unbound_of_sparing hm hf hsame h hnone)
  assigns _ _ _ _ _ _ _ _ hf hl h := assign_writes_resolved hm hf hl h

end Eval

end SmallScript
