import SmallScript.Proofs.Eval.FrameEffect
import SmallScript.Proofs.Eval.VarNames
import SmallScript.Proofs.Session.Scoping
import Mathlib

namespace SmallScript

open Declares Eval Early

def Care.lax : Care := ⟨fun _ => True, fun _ _ => True, fun _ => True⟩

theorem Care.lax_observed (program : List Stmt) : Care.lax.Observed program := by
  refine ⟨trivial, fun x _ => ?_⟩
  unfold part
  split
  · trivial
  · trivial
  · exact fun _ => trivial
  · trivial
  · trivial

variable {m : Memory} {ctx : Context} {l : Level} {f g i : FrameRef} {x : String}

structure Memory.Provides (m : Memory) (i : FrameRef) (x : String) : Prop where
  binds : m.isDeclaredHere i x = true
  found : ∀ j, m.Encloses i j → ∃ v, m.lookup? j x = some v

theorem Memory.Rooted.provides (hm : m.Rooted g) (hx : m.isDeclaredHere i x = true) :
    m.Provides i x := by
  refine ⟨hx, fun j hj => ?_⟩
  obtain ⟨k, hk⟩ := hm.resolve?_of_encloses hj hx
  exact lookup?_isSome hk

namespace Eval

def withholding (i : FrameRef) (x : String) : Moments :=
  ⟨fun _ _ _ _ s => ¬s.memory.Provides i x, fun _ _ _ _ s => ¬s.memory.Provides i x⟩

/-- From the state on, whatever is evaluated, a frame that binds a name provides it at all moments:
another answer where it did not would make no difference. -/
def StaysProvided (host : Host) (s : State) : Prop :=
  ∀ i x, s.memory.isDeclaredHere i x = true → ∀ n A Q ctx f, f < s.memory.frames.size →
    (∀ e, (watched host (withholding i x) A Q n ctx).expr f e s =
      (diverted host Q halting n).expr f e s) ∧
    ∀ t, (watched host (withholding i x) A Q n ctx).stmt f t s =
      (diverted host Q halting n).stmt f t s

def Discipline.binding (g i : FrameRef) (x : String) : Discipline :=
  .stable g (fun _ => True) (fun m => m.isDeclaredHere i x = true)
    fun hbound hgrows => hgrows.isDeclaredHere hbound

theorem binding_excludes (host : Host) (g i : FrameRef) (x : String) :
    (Discipline.binding g i x).Excludes host (withholding i x) where
  gains _ := trivial
  expr _ _ _ _ _ _ hs hhere h := h (hs.rooted.provides hhere.2)
  stmt _ _ _ _ _ _ _ hs hready h := h (hs.rooted.provides hready.2)

theorem staysProvided_of_rooted (host : Host) {s : State} (hm : s.memory.Rooted g) :
    StaysProvided host s := by
  intro i x hx n A Q ctx f hf
  have hgood (xs : List Part) : (Discipline.binding g i x).Good xs := fun _ _ => trivial
  have hs : (Discipline.binding g i x).Holds s := ⟨hm, fun _ _ => hgood _⟩
  have hrelated := (binding_excludes host g i x).related A Q n
  refine ⟨fun e => (hrelated.expr (hgood _) hs ⟨hf, hx⟩).1, fun t => ?_⟩
  have hready : (Discipline.binding g i x).ready ctx f [t] s := ⟨hf, hx⟩
  exact (hrelated.stmt (hgood (stmtParts .top t)) hs hready).1

end Eval

def Level.HasVars (l : Level) (m : Memory) (i : FrameRef) : Prop :=
  ∀ x, DeclareVar l.scope.body x → m.Provides i x

theorem Level.Fits.hasVars (h : l.Fits m i) (hm : m.Rooted g)
    (hfunction : l.scope.isFunction = true) : l.HasVars m i :=
  fun x hx => hm.provides (h.hoisted hfunction x ((mem_varNamesOf_iff _ x).mpr hx))

/-- The activation that has come to the frame `f` has its `var` names in a frame around `f`, and so
have all activations that wait for it to end. -/
structure VarsBound (m : Memory) (ctx : Context) (f : FrameRef) : Prop where
  own : ∃ l i, Activation m ctx f l i ∧ l.scope.isFunction = true ∧ m.Encloses i f ∧ l.HasVars m i
  callers : ∀ l ∈ ctx, l.scope.isFunction = true → ∃ i, l.Fits m i ∧ l.HasVars m i

/-- A write to `x` goes to the frame of the activation, or to that of a catch clause in it that has
`x` for its parameter; there `x` is bound. It fails if that is a predefined constant. -/
def VarWrite (m : Memory) (ctx : Context) (f : FrameRef) (x : String) : Prop :=
  ∃ l i, Activation m ctx f l i ∧ (l.scope.isFunction = true ∨ l.caught = some x) ∧
    m.isDeclaredHere i x = true ∧
    (m.writableFrame f x = .ok i ∨
      m.writableFrame f x = .error .constantAssigned ∧ l.isProgram = true ∧ x ∈ Memory.constants)

theorem Describes.varsBound {C : Care} (h : Describes C m ctx f) (hm : m.Rooted g) :
    VarsBound m ctx f := by
  refine ⟨?_, fun l hl hfunction => ?_⟩
  · obtain ⟨l, i, hl, hfunction, hfits, hencloses⟩ := h.own
    exact ⟨l, i, hl, hfunction, hencloses, hfits.hasVars hm hfunction⟩
  · obtain ⟨i, hfits⟩ := h.fits_of_mem hl
    exact ⟨i, hfits, hfits.hasVars hm hfunction⟩

theorem Describes.varWrite {C : Care} (h : Describes C m ctx f) (hm : m.Rooted g)
    (hx : ∀ l ∈ ctx.head?, x ∈ l.scope.varNames) : VarWrite m ctx f x := by
  obtain ⟨l, i, hl, hresolve, hown, hconstant⟩ := h.resolve?_varName hm hx
  refine ⟨l, i, hl, hown, Memory.resolve?_binds hresolve, ?_⟩
  obtain ⟨b, hb⟩ := Memory.isDeclaredHere_iff.mp (Memory.resolve?_binds hresolve)
  obtain ⟨v, isMutable⟩ := b
  cases isMutable with
  | true => exact .inl (by simp [Memory.writableFrame, hresolve, hb])
  | false => exact .inr ⟨by simp [Memory.writableFrame, hresolve, hb], hconstant v hb⟩

/-- The moments at which some activation lacks one of its `var` names, or a name that is bound by then
is not so for ever, or a `var` declaration is about to write elsewhere. -/
def misplacedVars (host : Host) : Moments where
  expr ctx _ f _ s := ¬(VarsBound s.memory ctx f ∧ StaysProvided host s)
  stmt ctx E f t s :=
    ¬(VarsBound s.memory ctx f ∧ StaysProvided host s ∧
      ∀ ds x v s', t = .decl .var ds → Stores E f .var x (some v) s' ds s →
        VarWrite s'.memory ctx f x)

theorem Eval.vars_excludes (host : Host) (g : FrameRef) :
    (Discipline.scoping .lax g).Excludes host (misplacedVars host) where
  gains _ := trivial
  expr _ _ _ _ _ _ hs hhere h :=
    h ⟨hhere.varsBound hs.rooted, staysProvided_of_rooted host hs.rooted⟩
  stmt n ctx p f t s ht hs hready h := by
    refine h ⟨hready.describes.varsBound hs.rooted, staysProvided_of_rooted host hs.rooted, ?_⟩
    rintro ds x v s' rfl hstores
    obtain ⟨hs', init, post, hready'⟩ := Discipline.scoping_stores ht hs hready hstores
    refine hready'.describes.varWrite hs'.rooted fun l hl => (hready'.ready l hl).varNames ?_
    simp [decls.declsOf, decls]

namespace Session

variable {host : Host} {fuel : Nat} {s : Session}

theorem Kept.runStatements_hoists {K : Discipline} (hs : s.Kept K) (E : Evaluator)
    (program : Program) :
    runStatements E s.global program s.state =
        runBody E s.global program (entered s.global program s.state) ∧
      s.state.memory.Hoists (entered s.global program s.state).memory s.global program :=
  ⟨rfl, Memory.hoists_declareVars hs.lt hs.isBoundary program⟩

/-- Programs and calls start with their `var` names hoisted, and in the run of a text these are
bound at every moment where they have to be, and written nowhere else. -/
theorem vars_in_activation (fuel : Nat) (interactive : Bool) (earlier : List Entry)
    (h : evalAll host fuel earlier (start interactive) = some s) :
    (∀ E program,
      runStatements E s.global program s.state =
          runBody E s.global program (entered s.global program s.state) ∧
        s.state.memory.Hoists (entered s.global program s.state).memory s.global program) ∧
    (∀ (E : Evaluator) (c : ClosureRef) (args : List Value) (r : State), ∃ s₁ s₂,
      bindParams r.memory.frames.size (r.memory.closureAt c).definition.params args
        (r.withFrame (r.memory.closureAt c).scope true) = .done () s₁ ∧
      s₁.memory.Hoists s₂.memory r.memory.frames.size (r.memory.closureAt c).definition.body ∧
      callBody E c args r =
        Effect.deeper (runBody E r.memory.frames.size (r.memory.closureAt c).definition.body) s₂) ∧
    ∀ source, ¬s.MeetsAt host fuel (misplacedVars host) source := by
  have hs := evalAll_scoped earlier (start_scoped .lax interactive)
    (fun _ _ program _ _ _ _ => Care.lax_observed program) h
  refine ⟨fun E program => hs.kept.runStatements_hoists E program, callBody_hoists, ?_⟩
  intro source
  exact hs.not_meetsAt (vars_excludes host s.global)
    fun _ _ program _ _ _ _ => Care.lax_observed program

/-- A function whose parameter is a `var` name as well, and a call of it. -/
theorem vars_in_activation_call : ∃ s,
    evalAll ⟨8, fun _ => none⟩ 20 ["function f(a) { var a, b = a; return b }"] (start false) =
        some s ∧
      ¬s.MeetsAt ⟨8, fun _ => none⟩ 20 (misplacedVars ⟨8, fun _ => none⟩) "f('c')" := by
  have hsome : (evalAll ⟨8, fun _ => none⟩ 20 ["function f(a) { var a, b = a; return b }"]
      (start false)).isSome = true := by cbv
  obtain ⟨s, hs⟩ := Option.isSome_iff_exists.mp hsome
  exact ⟨s, hs, (vars_in_activation 20 false _ hs).2.2 "f('c')"⟩

end Session

end SmallScript
