import SmallScript.Proofs.Eval.Tracking.Program
import Mathlib

namespace SmallScript

def Context.calls (ctx : Context) : Nat := ctx.countP fun l => l.scope.isFunction && !l.isProgram

namespace Context

@[simp] theorem calls_program (lexical vars : List String) (body : List Stmt) :
    Context.calls [.program lexical vars body] = 0 := rfl

@[simp] theorem calls_call (definition : Function) (ctx : Context) :
    Context.calls (.call definition :: ctx) = ctx.calls + 1 := by
  simp [calls, Level.call, Scope.function]

@[simp] theorem calls_block (body : List Stmt) (ctx : Context) :
    Context.calls (.block body :: ctx) = ctx.calls := by
  simp [calls, Level.block, Scope.block]

@[simp] theorem calls_handler (param : String) (body : List Stmt) (ctx : Context) :
    Context.calls (.handler param body :: ctx) = ctx.calls := by
  simp [calls, Level.handler, Scope.block]

@[simp] theorem calls_loop (init : Option Stmt) (body : Stmt) (ctx : Context) :
    Context.calls (.loop init body :: ctx) = ctx.calls := by
  simp [calls, Level.loop, Scope.forLoop, Scope.block]

@[simp] theorem calls_repeating (body : Stmt) (ctx : Context) :
    (ctx.repeating body).calls = ctx.calls := by
  cases ctx <;> rfl

theorem calls_of_opens {t : Stmt} {l : Level} (h : t.Opens l) (ctx : Context) :
    Context.calls (l :: ctx) = ctx.calls := by
  cases h <;> simp

end Context

namespace Eval

open Effect Declares

@[simp] theorem calls_inside (ctx : Context) (t : Stmt) : (inside ctx t).calls = ctx.calls := by
  cases t <;> simp [inside]

def Discipline.counting (g : FrameRef) : Discipline where
  global := g
  gains _ := True
  ok _ := True
  here ctx f s := f < s.memory.frames.size ∧ s.depth = ctx.calls
  ready ctx f _ s := f < s.memory.frames.size ∧ s.depth = ctx.calls
  ok_empty := trivial
  here_lt h := h.1
  here_grows h hgrows := ⟨Nat.lt_of_lt_of_le h.1 hgrows.size_le, hgrows.depth.trans h.2⟩
  ready_here h hgrows := ⟨Nat.lt_of_lt_of_le h.1 hgrows.size_le, hgrows.depth.trans h.2⟩
  ready_grows h hgrows := ⟨Nat.lt_of_lt_of_le h.1 hgrows.size_le, hgrows.depth.trans h.2⟩
  ready_head h := h
  ready_tail h hgrows := ⟨Nat.lt_of_lt_of_le h.1 hgrows.size_le, hgrows.depth.trans h.2⟩
  ready_then h _ := h
  ready_else h _ := h
  ready_while h _ hgrows := ⟨Nat.lt_of_lt_of_le h.1 hgrows.size_le, by simp [hgrows.depth, h.2]⟩
  ready_do h _ hgrows := ⟨Nat.lt_of_lt_of_le h.1 hgrows.size_le, by simp [hgrows.depth, h.2]⟩
  ready_again h _ hgrows := ⟨Nat.lt_of_lt_of_le h.1 hgrows.size_le, hgrows.depth.trans h.2⟩
  ready_opens h hlevel _ _ _ hopens hdepth _ _ :=
    ⟨hopens.lt, (hdepth.trans h.2).trans (Context.calls_of_opens hlevel _).symm⟩
  ready_call h _ hopens hdepth _ _ _ := ⟨hopens.lt, by simp [hdepth, h.2]⟩

theorem callClosure_apply (host : Host) (E : Evaluator) (c : ClosureRef) (args : List Value)
    (s : State) :
    callClosure host E c args s =
      if host.maxDepth ≤ s.depth then .fail .tooDeep s else (callBody E c args >>= callResult) s := by
  rw [callClosure, bind_apply]
  show (if host.maxDepth ≤ s.depth then _ else _ : Effect Value) s = _
  split <;> rfl

/-- Where an effect starts the depth is the number of calls, and an effect that comes to an end
leaves it as it was. -/
structure Counted {α : Type} (host : Host) (ctx : Context) (x : Effect α) (s : State) : Prop where
  calls : s.depth = ctx.calls
  le : s.depth ≤ host.maxDepth
  restored : ∀ s', (x s).state? = some s' → s'.depth = s.depth

/-- A call of a function, when callee and arguments have been evaluated: it is refused if as many
calls are in progress as the host admits, and otherwise the body runs. -/
def Guarded (host : Host) (E : Evaluator) (ctx : Context) (f : FrameRef) (e : Expr) (s : State) :
    Prop :=
  ∀ callee args c vs s₁, e = .call callee args →
    evalOperands E f callee args s = .done (.closure c, vs) s₁ →
      evalExpr host E f e s =
        if ctx.calls = host.maxDepth then .fail .tooDeep s₁
        else (callBody E c vs >>= callResult) s₁

/-- The moments at which the depth is wrong or not restored, or a call is not guarded. -/
def miscounting (host : Host) : Moments :=
  ⟨fun ctx E f e s => ¬(Counted host ctx (evalExpr host E f e) s ∧ Guarded host E ctx f e s),
    fun ctx E f t s => ¬Counted host ctx (evalStmt E f t) s⟩

namespace Discipline

variable {host : Host} {g f : FrameRef} {ctx : Context} {n : Nat} {s : State} {e : Expr} {t : Stmt}
  {p : Place}

theorem counting_good (xs : List Part) : (counting g).Good xs := fun _ _ => trivial

theorem counting_self (host : Host) (g : FrameRef) (n : Nat) :
    (counting g).Related (fun _ => evaluator host n) (evaluator host n) :=
  related_self (fun _ => trivial) host n

theorem counted_expr (hs : (counting g).Holds s) (hhere : (counting g).here ctx f s)
    (hle : ctx.calls ≤ host.maxDepth) (n : Nat) (e : Expr) :
    Counted host ctx (evalExpr host (evaluator host n) f e) s := by
  refine ⟨hhere.2, hhere.2 ▸ hle, fun s' hs' => ?_⟩
  have htracks : (counting g).Tracks nowhere
      (exprIn host (fun _ => evaluator host n) ctx f e) (evalExpr host (evaluator host n) f e) s :=
    (counting_self host g n).exprIn (counting_good _) hs hhere fun _ _ => trivial
  exact (htracks.2 s' hs').2.grows.depth

theorem counted_stmt (hs : (counting g).Holds s) (hready : (counting g).ready ctx f [t] s)
    (hle : ctx.calls ≤ host.maxDepth) (n : Nat) :
    Counted host ctx (evalStmt (evaluator host n) f t) s := by
  refine ⟨hready.2, hready.2 ▸ hle, fun s' hs' => ?_⟩
  have htracks := (counting_self host g n).stmtIn (counting_good (stmtParts .top t)) hs hready
    fun _ _ => trivial
  exact (htracks.2 s' hs').2.grows.depth

theorem guarded_expr (hs : (counting g).Holds s) (hhere : (counting g).here ctx f s)
    (hle : ctx.calls ≤ host.maxDepth) (n : Nat) (e : Expr) :
    Guarded host (evaluator host n) ctx f e s := by
  rintro callee args c vs s₁ rfl hdone
  have hdepth : s₁.depth = ctx.calls :=
    (((counting_self host g n).evalOperands (counting_good _) (counting_good _) hs hhere).done
      hdone).2.depth.trans hhere.2
  rw [evalExpr, evalCall, bind_apply, hdone]
  show callClosure host (evaluator host n) c vs s₁ = _
  rw [callClosure_apply, hdepth]
  exact if_congr ⟨fun h => Nat.le_antisymm hle h, fun h => h.ge⟩ rfl rfl

end Discipline

section

variable {host : Host} {D D' : Context → Evaluator} {g f : FrameRef} {ctx : Context} {s : State}
  {E : Evaluator}

/-- A call that is refused does not need the evaluator of its body. -/
theorem callIn_congr (h : (Discipline.counting g).Related D' E)
    (hsame : ∀ ctx', ctx'.calls ≤ host.maxDepth → D ctx' = D' ctx')
    (hle : ctx.calls ≤ host.maxDepth) (hs : (Discipline.counting g).Holds s)
    (hhere : (Discipline.counting g).here ctx f s) (callee : Expr) (args : List Expr) :
    callIn host D ctx f callee args s = callIn host D' ctx f callee args s := by
  have hoperands : (Discipline.counting g).Tracks nowhere (evalOperands (D' ctx) f callee args)
      (evalOperands E f callee args) s :=
    h.evalOperands (Discipline.counting_good _) (Discipline.counting_good _) hs hhere
  rw [callIn, callIn, bind_apply, bind_apply, hsame ctx hle, hoperands.1]
  cases hdone : evalOperands E f callee args s with
  | fail e s₁ => rfl
  | exhausted => rfl
  | done r s₁ =>
      obtain ⟨v, vs⟩ := r
      cases v with
      | closure c =>
          show callClosure host (D (.call (s₁.memory.closureAt c).definition :: ctx)) c vs s₁ =
            callClosure host (D' (.call (s₁.memory.closureAt c).definition :: ctx)) c vs s₁
          rw [callClosure_apply, callClosure_apply]
          split
          · rfl
          · rename_i hlt
            rw [(hoperands.done hdone).2.depth, hhere.2] at hlt
            rw [hsame _ (by rw [Context.calls_call]; omega)]
      | _ => rfl

theorem exprIn_congr (h : (Discipline.counting g).Related D' E)
    (hsame : ∀ ctx', ctx'.calls ≤ host.maxDepth → D ctx' = D' ctx')
    (hle : ctx.calls ≤ host.maxDepth) (hs : (Discipline.counting g).Holds s)
    (hhere : (Discipline.counting g).here ctx f s) (e : Expr) :
    exprIn host D ctx f e s = exprIn host D' ctx f e s := by
  cases e with
  | call callee args => exact callIn_congr h hsame hle hs hhere callee args
  | _ => simp only [exprIn, hsame ctx hle]

theorem stmtIn_congr (hsame : ∀ ctx', ctx'.calls ≤ host.maxDepth → D ctx' = D' ctx')
    (hle : ctx.calls ≤ host.maxDepth) (t : Stmt) : stmtIn D ctx f t = stmtIn D' ctx f t := by
  cases t with
  | tryCatch body handler finalizer =>
      have hhandler : (handler.elim ctx fun h => .handler h.1 h.2 :: ctx).calls = ctx.calls := by
        cases handler <;> simp
      have hfinalizer : (finalizer.elim ctx fun body => .block body :: ctx).calls = ctx.calls := by
        cases finalizer <;> simp
      simp only [stmtIn, tryIn, hsame _ (hhandler.trans_le hle), hsame _ (hfinalizer.trans_le hle),
        hsame (.block body :: ctx) ((Context.calls_block body ctx).trans_le hle)]
  | _ => simp only [stmtIn, hsame _ ((calls_inside ctx _).trans_le hle)]

end

open Classical in
/-- The evaluator that is watched as long as no more calls are in progress than the host admits. -/
noncomputable def watchedWithin (host : Host) (P : Moments) (A : Evaluator) (Q : Spots) (n : Nat)
    (ctx : Context) : Evaluator :=
  if ctx.calls ≤ host.maxDepth then watched host P A Q n ctx else diverted host Q halting n

theorem watchedWithin_of_le {host : Host} {P : Moments} {A : Evaluator} {Q : Spots} {n : Nat}
    {ctx : Context} (h : ctx.calls ≤ host.maxDepth) :
    watchedWithin host P A Q n ctx = watched host P A Q n ctx :=
  if_pos h

namespace Discipline

variable {host : Host} {g : FrameRef} {P : Moments}

/-- Moments that never come with so many calls in progress as the host admits never come at all. -/
theorem watchedWithin_related
    (hexpr : ∀ n {ctx f e s}, (counting g).Holds s → (counting g).here ctx f s →
      ctx.calls ≤ host.maxDepth → ¬P.expr ctx (evaluator host n) f e s)
    (hstmt : ∀ n {ctx f t s}, (counting g).Holds s → (counting g).ready ctx f [t] s →
      ctx.calls ≤ host.maxDepth → ¬P.stmt ctx (evaluator host n) f t s)
    (A : Evaluator) (Q : Spots) (n : Nat) :
    (counting g).Related (watchedWithin host P A Q n) (diverted host Q halting n) := by
  -- Without any moments it is the diverted evaluator that is tracked.
  have hnever : (counting g).Excludes host
      ⟨fun _ _ _ _ _ => False, fun _ _ _ _ _ => False⟩ :=
    ⟨fun _ => trivial, fun _ _ _ _ _ _ _ _ h => h, fun _ _ _ _ _ _ _ _ _ h => h⟩
  induction n with
  | zero =>
      have hzero (ctx : Context) : watchedWithin host P A Q 0 ctx = silent := ite_self _
      refine ⟨fun ctx => by rw [hzero]; rfl, fun {ctx f e s} _ _ _ => ?_,
        fun {ctx p f t s} _ _ _ => ?_⟩
      · rw [hzero]
        exact tracks_exhausted
      · rw [hzero]
        exact tracks_exhausted
  | succ n ih =>
      have hsame (ctx : Context) (h : ctx.calls ≤ host.maxDepth) :
          watched host P A Q n ctx = watchedWithin host P A Q n ctx :=
        (watchedWithin_of_le h).symm
      refine ⟨fun ctx => ?_, fun {ctx f e s} he hs hhere => ⟨?_, ?_⟩,
        fun {ctx p f t s} ht hs hready => ⟨?_, ?_⟩⟩
      · unfold watchedWithin
        split <;> rfl
      · by_cases hle : ctx.calls ≤ host.maxDepth
        · rw [watchedWithin_of_le hle, watched_expr (hexpr n hs hhere hle)]
          cases hQ : Q.expr (evaluator host n) f e s with
          | true => exact (diverted_expr_spot hQ).symm
          | false =>
              rw [diverted_expr hQ, cond_false, exprIn_congr ih hsame hle hs hhere]
              exact (ih.exprIn he hs hhere fun _ _ => trivial).1
        · rw [watchedWithin, if_neg hle]
      · exact ((hnever.related A Q (n + 1)).expr he hs hhere).2
      · by_cases hle : ctx.calls ≤ host.maxDepth
        · rw [watchedWithin_of_le hle, watched_stmt (hstmt n hs hready hle)]
          cases hQ : Q.stmt (evaluator host n) f t s with
          | true => exact (diverted_stmt_spot hQ).symm
          | false =>
              rw [diverted_stmt hQ, cond_false, stmtIn_congr hsame hle]
              exact (ih.stmtIn ht hs hready fun _ _ => trivial).1
        · rw [watchedWithin, if_neg hle]
      · exact ((hnever.related A Q (n + 1)).stmt ht hs hready).2

/-- No run counts its calls wrong. -/
theorem miscounting_related (host : Host) (g : FrameRef) (A : Evaluator) (Q : Spots) (n : Nat) :
    (counting g).Related (watchedWithin host (miscounting host) A Q n)
      (diverted host Q halting n) :=
  watchedWithin_related (P := miscounting host)
    (fun n _ _ e _ hs hhere hle h =>
      h ⟨counted_expr hs hhere hle n e, guarded_expr hs hhere hle n e⟩)
    (fun n _ _ _ _ hs hready hle h => h (counted_stmt hs hready hle n)) A Q n

end Discipline

end Eval

end SmallScript
