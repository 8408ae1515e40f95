import SmallScript.Proofs.Eval.Blind
import SmallScript.Proofs.Eval.FrameEffect
import Mathlib

namespace SmallScript

open Effect Eval

namespace Eval

open Classical in
noncomputable def routedCall (host : Host) (i : FrameRef) (T : Effect Value → Effect Value)
    (E D : Evaluator) (c : ClosureRef) (args : List Value) : Effect Value := fun s =>
  if s.memory.Encloses i (s.memory.closureAt c).scope then T (callClosure host E c args) s
  else callClosure host D c args s

noncomputable def routedExpr (host : Host) (i : FrameRef) (T : Effect Value → Effect Value)
    (E D : Evaluator) (f : FrameRef) : Expr → Effect Value
  | .call callee args => do
    match ← evalOperands D f callee args with
    | (.builtin b, vs) => evalBuiltin host b vs
    | (.closure c, vs) => routedCall host i T E D c vs
    | _ => fail (.notFunction (describe callee))
  | e => evalExpr host D f e

/-- The evaluator to a depth of `n`, but the calls of functions that were made in the frame `i` or
inside of it go through `T`, as whole calls of the plain evaluator. -/
noncomputable def routed (host : Host) (i : FrameRef) (T : Effect Value → Effect Value) :
    Nat → Evaluator
  | 0 => silent
  | n + 1 =>
    ⟨n, routedExpr host i T (evaluator host n) (routed host i T n), evalStmt (routed host i T n)⟩

theorem routed_id (host : Host) (i : FrameRef) (n : Nat) :
    routed host i id n = evaluator host n := by
  have hcall (E : Evaluator) : routedCall host i id E E = callClosure host E := by
    funext c args s
    exact ite_self _
  induction n with
  | zero => rfl
  | succ n ih =>
      have hexpr : routedExpr host i id (evaluator host n) (evaluator host n) =
          evalExpr host (evaluator host n) := by
        funext f e
        cases e with
        | call callee args =>
            rw [routedExpr, hcall]
            rfl
        | _ => rfl
      rw [routed, ih, hexpr]
      rfl

end Eval

namespace Veil

variable {V : Veil} {host : Host} {f : FrameRef}

/-- A call of a function that was made outside is a step like others; what becomes of the other
calls is up to `T` and `T'`. -/
theorem Related.routedCall {E D : Evaluator} (h : V.Related E D) {T T' : Effect Value → Effect Value} {B : Evaluator}
    {c : ClosureRef} {args : List Value}
    (hT : ∀ s, V.Holds s.memory →
      V.BlindAt (T (Eval.callClosure host B c args)) (T' (Eval.callClosure host B c args)) s) :
    V.Blind f (routedCall host V.frame T B E c args) (routedCall host V.frame T' B D c args) := by
  intro s hs
  have hscope : (V.hide s).memory.Encloses V.frame ((V.hide s).memory.closureAt c).scope ↔
      s.memory.Encloses V.frame (s.memory.closureAt c).scope := Memory.encloses_recode
  rw [BlindAt, Eval.routedCall, Eval.routedCall]
  by_cases hmade : s.memory.Encloses V.frame (s.memory.closureAt c).scope
  · rw [if_pos hmade, if_pos (hscope.mpr hmade)]
    exact hT s hs.holds
  · rw [if_neg hmade, if_neg (mt hscope.mp hmade)]
    exact h.callClosure c args ⟨hs.holds, hs.holds.rooted.closureAt_scope_lt c, hmade⟩

def Passes (V : Veil) (host : Host) (T T' : Effect Value → Effect Value) : Prop :=
  ∀ n c args s, V.Holds s.memory →
    V.BlindAt (T (callClosure host (evaluator host n) c args))
      (T' (callClosure host (evaluator host n) c args)) s

theorem routed_related {T T' : Effect Value → Effect Value} (hT : V.Passes host T T') (n : Nat) :
    V.Related (routed host V.frame T n) (routed host V.frame T' n) := by
  induction n with
  | zero => exact ⟨rfl, fun _ _ => blind_exhausted, fun _ _ => blind_exhausted⟩
  | succ n ih =>
      refine ⟨rfl, fun f e => ?_, fun f t => ih.evalStmt t⟩
      by_cases he : ∃ callee args, e = .call callee args
      · obtain ⟨callee, args, rfl⟩ := he
        refine (ih.evalOperands callee args).bind ?_
        rintro ⟨v, vs⟩
        cases v with
        | builtin b => exact blind_evalBuiltin b vs
        | closure c => exact ih.routedCall (hT n c vs)
        | _ => exact blind_fail _
      · have hplain (T : Effect Value → Effect Value) :
            (routed host V.frame T (n + 1)).expr f e =
              Eval.evalExpr host (routed host V.frame T n) f e := by
          cases e with
          | call callee args => exact (he ⟨callee, args, rfl⟩).elim
          | _ => rfl
        rw [hplain, hplain]
        exact ih.evalExpr fun callee args heq => he ⟨callee, args, heq⟩

end Veil

section

variable {α : Type} {host : Host} {g i : FrameRef}

/-- The effect between states in which the bindings of the frame `i` are in another code. -/
def Effect.recoded (i : FrameRef) (code : Equiv.Perm (Table Binding)) (x : Effect α) : Effect α :=
  fun s => (x (s.recode i code.symm)).mapState (State.recode i code)

def Effect.restored (i : FrameRef) (x : Effect α) : Effect α :=
  fun s => (x s).mapState (State.recode i fun _ => (s.memory.frameAt i).bindings)

theorem Memory.Rooted.recode {m : Memory} (hm : m.Rooted g) (code : Table Binding → Table Binding) :
    (m.recode i code).Rooted g :=
  hm.of_same Memory.size_recode Memory.parent_recode rfl

theorem callClosure_leads {s s' : State} (hm : s.memory.Rooted g) (n : Nat) (c : ClosureRef)
    (args : List Value) (h : (callClosure host (evaluator host n) c args s).state? = some s') :
    s'.memory.Rooted g ∧ s.Grows .nowhere s' := by
  have hrelated := Discipline.related_self (K := .free g fun _ => True) (fun _ => trivial) host n
  have hhere : (Discipline.free g fun _ => True).here [] g s := ⟨hm.global_lt, trivial⟩
  obtain ⟨hholds, hleads⟩ :=
    (hrelated.callClosure c args (Discipline.free_holds hm) hhere).2 s' h
  exact ⟨hholds.rooted, hleads.grows⟩

/-- The frame in another code, whatever its bindings are. -/
def Veil.recoded (g i : FrameRef) (code : Equiv.Perm (Table Binding)) : Veil :=
  ⟨g, i, code, fun _ => True⟩

def Veil.fixed (g i : FrameRef) (t : Table Binding) : Veil := ⟨g, i, id, (· = t)⟩

theorem recoded_passes (host : Host) (g i : FrameRef) (code : Equiv.Perm (Table Binding)) :
    (Veil.recoded g i code).Passes host id (Effect.recoded i code) := by
  intro n c args s hs
  refine ⟨?_, fun s' hs' => ?_⟩
  · have hback : (s.recode i code).recode i code.symm = s :=
      congrArg (fun m => State.mk m s.output s.writes s.depth)
        (Memory.recode_recode code.symm_apply_apply)
    show (callClosure host (evaluator host n) c args _).mapState _ = _
    rw [Veil.hide, Veil.recoded, hback]
    rfl
  · obtain ⟨hrooted, hgrows⟩ := callClosure_leads hs.rooted n c args hs'
    exact ⟨⟨hrooted, Nat.lt_of_lt_of_le hs.lt hgrows.memory.size_le, trivial⟩,
      hgrows.memory.size_le, hgrows.memory.parent⟩

theorem restored_passes (host : Host) (g i : FrameRef) (t : Table Binding) :
    (Veil.fixed g i t).Passes host (Effect.restored i) (Effect.restored i) := by
  intro n c args s hs
  have hsame (s : State) : (Veil.fixed g i t).hide s = s :=
    congrArg (fun m => State.mk m s.output s.writes s.depth) (Memory.modifyFrame_id _ _ fun _ => rfl)
  refine ⟨?_, fun s' hs' => ?_⟩
  · rw [hsame, funext hsame]
    cases Effect.restored i (callClosure host (evaluator host n) c args) s <;> rfl
  · rw [Effect.restored, Outcome.state?_mapState, Option.map_eq_some_iff] at hs'
    obtain ⟨u, hu, rfl⟩ := hs'
    obtain ⟨hrooted, hgrows⟩ := callClosure_leads hs.rooted n c args hu
    have hlt : i < u.memory.frames.size := Nat.lt_of_lt_of_le hs.lt hgrows.memory.size_le
    have hrestored :
        (Veil.fixed g i t).Holds (u.memory.recode i fun _ => (s.memory.frameAt i).bindings) := by
      refine ⟨hrooted.recode _, Memory.size_recode.symm ▸ hlt, ?_⟩
      show ((u.memory.recode i _).frameAt i).bindings = t
      rw [Memory.frameAt_recode_self hlt]
      exact hs.ok
    refine ⟨hrestored, ?_, fun f hf => ?_⟩
    · rw [State.recode, Memory.size_recode]
      exact hgrows.memory.size_le
    · exact (Memory.parent_recode f).trans (hgrows.memory.parent f hf)

end

end SmallScript
