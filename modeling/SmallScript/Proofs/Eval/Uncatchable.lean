import SmallScript.Proofs.Eval.Diversion

namespace SmallScript

def Outcome.isUncatchable {σ α : Type} : Outcome σ α → Bool
  | .fail e _ => !e.isCatchable
  | _ => false

theorem Outcome.isUncatchable_iff {σ α : Type} {o : Outcome σ α} :
    o.isUncatchable = true ↔ ∃ e s, o = .fail e s ∧ e.isCatchable = false := by
  cases o <;> simp [isUncatchable]

namespace Eval

open Effect Comparison

/-- Whether a builtin is called and ends with a fault that cannot be caught. -/
def raisesAt (host : Host) (E : Evaluator) (f : FrameRef) : Expr → State → Bool
  | .call callee args, s =>
    match evalOperands E f callee args s with
    | .done (.builtin b, vs) s => (evalBuiltin host b vs s).isUncatchable
    | _ => false
  | .new callee args, s =>
    match evalOperands E f callee args s with
    | .done (.builtin b, vs) s => b.isConstructor && (evalBuiltin host b vs s).isUncatchable
    | _ => false
  | _, _ => false

def replaces : Outcome State Completion → Bool
  | .done (.normal _) _ => false
  | .done _ _ => true
  | .fail e _ => e.isCatchable
  | .exhausted => false

/-- Whether the body and the handler of a `try` end with a fault that cannot be caught, and its
finalizer puts something else in its place. -/
def overridesAt (E : Evaluator) (f : FrameRef) : Stmt → State → Bool
  | .tryCatch body handler (some last), s =>
    match attempt E f body handler s with
    | .done (.error e) s => !e.isCatchable && replaces (evalBlock E f last s)
    | _ => false
  | _, _ => false

def raises (host : Host) : Spots := ⟨raisesAt host, fun _ _ _ _ => false⟩

def overrides : Spots := ⟨fun _ _ _ _ => false, overridesAt⟩

/-- The first effect gives up only where the second one ends with a fault that cannot be caught,
unless that one gives up. -/
def Comparison.lost (host : Host) : Comparison host where
  toContract := .lax host
  like o o' := o' = .exhausted ∨ o = o' ∨ o = .exhausted ∧ o'.isUncatchable = true
  like_refl _ := .inr (.inl rfl)
  like_bind := by
    rintro α β o o' f g (rfl | rfl | ⟨rfl, ho'⟩) hfg
    · exact .inl rfl
    · cases o with
      | done a s => exact hfg a s rfl
      | fail e s => exact .inr (.inl rfl)
      | exhausted => exact .inl rfl
    · obtain ⟨e, s, rfl, -⟩ := Outcome.isUncatchable_iff.mp ho'
      exact .inr (.inr ⟨rfl, ho'⟩)
  like_leave := by
    rintro α o o' (rfl | rfl | ⟨rfl, ho'⟩)
    · exact .inl rfl
    · exact .inr (.inl rfl)
    · obtain ⟨e, s, rfl, -⟩ := Outcome.isUncatchable_iff.mp ho'
      exact .inr (.inr ⟨rfl, ho'⟩)

variable {host : Host} {D E F : Evaluator}

theorem bind_uncatchable {α β : Type} {o o' : Outcome State α} {g : α → State → Outcome State β}
    (h : (below host).like o o')
    (hg : o'.bind g = .exhausted ∨ (o'.bind g).isUncatchable = true) :
    o.bind g = .exhausted ∨ (o.bind g).isUncatchable = true := by
  rcases h with rfl | rfl
  · exact .inl rfl
  · exact hg

/-- A call that raises does so, if its operands are evaluated at all. -/
theorem uncatchable_of_raisesAt (hE : (below host).Related E F) {f : FrameRef} {e : Expr}
    {s : State} (h : raisesAt host F f e s = true) :
    evalExpr host E f e s = .exhausted ∨ (evalExpr host E f e s).isUncatchable = true := by
  have hoperands (callee : Expr) (args : List Expr) :=
    (hE.evalOperands f callee args (Contract.lax_good _) (Contract.lax_good _) s
      (Contract.lax_holds s)).1
  unfold raisesAt at h
  split at h
  · rename_i callee args
    simp only [evalExpr, evalCall]
    rw [bind_apply]
    apply bind_uncatchable (hoperands callee args)
    split at h
    · rename_i b vs s' hdone
      rw [hdone]
      exact .inr h
    · cases h
  · rename_i callee args
    simp only [evalExpr, evalNew]
    rw [bind_apply]
    apply bind_uncatchable (hoperands callee args)
    split at h
    · rename_i b vs s' hdone
      rw [Bool.and_eq_true] at h
      simp only [hdone, Outcome.bind, h.1, if_true]
      exact .inr h.2
    · cases h
  · cases h

theorem lost_handled (h : (lost host).Related D E) (f : FrameRef)
    (handler : Option (String × List Stmt)) (result : Except Fault Completion) (s : State) :
    handled E f handler result s = .exhausted ∨
      handled D f handler result s = handled E f handler result s ∨
      handled D f handler result s = .exhausted ∧
        ∃ e s', handled E f handler result s = .done (.error e) s' ∧ e.isCatchable = false := by
  unfold handled
  split
  · rename_i param body e
    split
    · rw [outcome_apply, outcome_apply]
      have hlike := (h.evalHandler .top f param body (Contract.lax_good _) e s
        (Contract.lax_holds s)).1
      rcases hlike with hgives | hsame | ⟨hgives, hfail⟩
      · rw [hgives]
        exact .inl rfl
      · rw [hsame]
        exact .inr (.inl rfl)
      · obtain ⟨e', s', hfail, he'⟩ := Outcome.isUncatchable_iff.mp hfail
        rw [hgives, hfail]
        exact .inr (.inr ⟨rfl, e', s', rfl, he'⟩)
    · exact .inr (.inl rfl)
  · exact .inr (.inl rfl)

theorem handled_uncatchable (E : Evaluator) (f : FrameRef) (handler : Option (String × List Stmt))
    {e : Fault} (he : e.isCatchable = false) (s : State) :
    handled E f handler (.error e) s = .done (.error e) s := by
  rcases handler with _ | ⟨param, body⟩
  · rfl
  · simp only [handled, he, Bool.false_eq_true, if_false]
    rfl

theorem lost_attempt (h : (lost host).Related D E) (f : FrameRef) (body : List Stmt)
    (handler : Option (String × List Stmt)) (s : State) :
    attempt E f body handler s = .exhausted ∨
      attempt D f body handler s = attempt E f body handler s ∨
      attempt D f body handler s = .exhausted ∧
        ∃ e s', attempt E f body handler s = .done (.error e) s' ∧ e.isCatchable = false := by
  rw [attempt, attempt, bind_apply, bind_apply, outcome_apply, outcome_apply]
  have hlike := (h.evalBlock .top f body (Contract.lax_good _) s (Contract.lax_holds s)).1
  rcases hlike with hgives | hsame | ⟨hgives, hfail⟩
  · rw [hgives]
    exact .inl rfl
  · rw [hsame]
    cases evalBlock E f body s with
    | done c s' => exact lost_handled h f handler (.ok c) s'
    | fail e s' => exact lost_handled h f handler (.error e) s'
    | exhausted => exact .inl rfl
  · obtain ⟨e, s', hfail, he⟩ := Outcome.isUncatchable_iff.mp hfail
    rw [hgives, hfail]
    exact .inr (.inr ⟨rfl, e, s', handled_uncatchable E f handler he s', he⟩)

theorem finish_uncatchable (hE : (below host).Related E F) {f : FrameRef} {body : List Stmt}
    {handler : Option (String × List Stmt)} {finalizer : Option (List Stmt)} {s s' : State}
    (hno : overridesAt F f (.tryCatch body handler finalizer) s = false) {e : Fault}
    (hattempt : attempt F f body handler s = .done (.error e) s') (he : e.isCatchable = false) :
    finish E f (.error e) finalizer s' = .exhausted ∨
      (finish E f (.error e) finalizer s').isUncatchable = true := by
  have hfail (s : State) : (ofExcept (α := Completion) (.error e) s).isUncatchable = true :=
    Outcome.isUncatchable_iff.mpr ⟨e, s, rfl, he⟩
  cases finalizer with
  | none => exact .inr (hfail s')
  | some last =>
      simp only [overridesAt, hattempt, he, Bool.not_false, Bool.true_and] at hno
      simp only [finish]
      rw [bind_apply]
      have hlike := (hE.evalBlock .top f last (Contract.lax_good _) s' (Contract.lax_holds s')).1
      apply bind_uncatchable hlike
      cases hlast : evalBlock F f last s' with
      | done c s'' =>
          rw [hlast] at hno
          cases c with
          | normal v => exact .inr (hfail s'')
          | _ => cases hno
      | fail e' s'' =>
          rw [hlast] at hno
          exact .inr (Outcome.isUncatchable_iff.mpr ⟨e', s'', rfl, hno⟩)
      | exhausted => exact .inl rfl

/-- Where a finalizer overrides, the fault is lost. -/
theorem not_isUncatchable_of_overridesAt {E : Evaluator} {f : FrameRef} {t : Stmt} {s : State}
    (h : overridesAt E f t s = true) : (evalStmt E f t s).isUncatchable = false := by
  unfold overridesAt at h
  split at h
  · rename_i body handler last
    split at h
    · rename_i e s' hattempt
      rw [Bool.and_eq_true] at h
      simp only [evalStmt, evalTry]
      rw [bind_apply, hattempt]
      simp only [Outcome.bind, finish]
      rw [bind_apply]
      obtain ⟨-, h⟩ := h
      cases hlast : evalBlock E f last s' with
      | done c s'' =>
          rw [hlast] at h
          cases c with
          | normal v => cases h
          | _ => rfl
      | fail e' s'' =>
          rw [hlast] at h
          simpa only [Outcome.bind, Outcome.isUncatchable, Bool.not_eq_false'] using
            show e'.isCatchable = true from h
      | exhausted => rfl
    · cases h
  · cases h

theorem lost_evalTry (h : (lost host).Related D E) (hE : (below host).Related E F)
    {f : FrameRef} {body : List Stmt} {handler : Option (String × List Stmt)}
    {finalizer : Option (List Stmt)} {s : State}
    (hno : overridesAt F f (.tryCatch body handler finalizer) s = false) :
    (lost host).like (evalTry D f body handler finalizer s)
      (evalTry E f body handler finalizer s) := by
  rw [evalTry, evalTry, bind_apply, bind_apply]
  rcases lost_attempt h f body handler s with hgives | hsame | ⟨hgives, e, s', hE', he⟩
  · rw [hgives]
    exact .inl rfl
  · rw [hsame]
    refine (lost host).like_bind ((lost host).like_refl _) ?_
    intro result s' _
    have hresult : (lost host).Result ((lost host).allowed .top) result := by
      cases result <;> trivial
    exact (h.finish .top f hresult finalizer
      (fun _ _ => Contract.lax_good _) s' (Contract.lax_holds s')).1
  · -- `overridesAt` speaks of the plain run, whose attempt ends with the same fault.
    have hlike := (hE.attempt below_catches .top f body handler (Contract.lax_good _)
      (fun _ _ _ => Contract.lax_good _) s (Contract.lax_holds s)).1
    have hF : attempt F f body handler s = .done (.error e) s' := by
      rcases hlike with hnone | hsame
      · rw [hnone] at hE'
        cases hE'
      · rw [← hsame, hE']
    rw [hgives, hE']
    rcases finish_uncatchable hE hno hF he with hnone | hfail
    · exact .inl hnone
    · exact .inr (.inr ⟨rfl, hfail⟩)

/-- A run that gives up where a builtin raises, against one that gives up where a finalizer
overrides: what the first one does not see, the second one fails with. -/
theorem lost_related (host : Host) (n : Nat) :
    (lost host).Related (diverted host (raises host) silent n)
      (diverted host overrides silent n) := by
  induction n with
  | zero => exact ⟨.inl rfl, fun _ _ _ => agree_exhausted, fun _ _ _ _ => agree_exhausted⟩
  | succ n ih =>
      have hbelow := silent_below_evaluator host overrides n
      refine ⟨.inl rfl, ?_, ?_⟩
      · intro f e he s hs
        refine ⟨?_, Contract.lax_ends _ (fun _ => trivial) _⟩
        rw [diverted_expr (P := overrides) rfl]
        cases hraises : raisesAt host (evaluator host n) f e s with
        | true =>
            rw [diverted_expr_spot (P := raises host) hraises]
            rcases uncatchable_of_raisesAt hbelow hraises with hgives | hfail
            · exact .inl hgives
            · exact .inr (.inr ⟨rfl, hfail⟩)
        | false =>
            rw [diverted_expr (P := raises host) hraises]
            exact (ih.evalExpr f e he s hs).1
      · intro p f t ht s hs
        refine ⟨?_, Contract.lax_ends _ (fun _ => trivial) _⟩
        rw [diverted_stmt (P := raises host) rfl]
        cases hover : overridesAt (evaluator host n) f t s with
        | true =>
            rw [diverted_stmt_spot (P := overrides) hover]
            exact .inl rfl
        | false =>
            rw [diverted_stmt (P := overrides) hover]
            cases t with
            -- The first run may give up in the body, so that `Catches` does not hold here.
            | tryCatch body handler finalizer => exact lost_evalTry ih hbelow hover
            | _ => exact (ih.evalStmt p f _ ht nofun s hs).1

end Eval

end SmallScript
