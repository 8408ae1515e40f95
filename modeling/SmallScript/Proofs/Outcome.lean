import SmallScript.Eval.Effect

namespace SmallScript

namespace Outcome

variable {σ τ υ α β : Type}

def mapState (f : σ → τ) : Outcome σ α → Outcome τ α
  | done a s => done a (f s)
  | fail e s => fail e (f s)
  | exhausted => exhausted

def state? : Outcome σ α → Option σ
  | done _ s => some s
  | fail _ s => some s
  | exhausted => none

def bind (o : Outcome σ α) (f : α → σ → Outcome σ β) : Outcome σ β :=
  match o with
  | done a s => f a s
  | fail e s => fail e s
  | exhausted => exhausted

def caught : Outcome σ α → Outcome σ (Except Fault α)
  | done a s => done (.ok a) s
  | fail e s => done (.error e) s
  | exhausted => exhausted

theorem state?_mapState (f : σ → τ) (o : Outcome σ α) : (o.mapState f).state? = o.state?.map f := by
  cases o <;> rfl

theorem mapState_mapState (g : τ → υ) (f : σ → τ) (o : Outcome σ α) :
    (o.mapState f).mapState g = o.mapState (g ∘ f) := by
  cases o <;> rfl

end Outcome

namespace Effect

variable {α β γ : Type}

theorem bind_apply (x : Effect α) (f : α → Effect β) (s : State) : (x >>= f) s = (x s).bind f := by
  simp only [Bind.bind]
  cases x s <;> rfl

theorem bind_eq_done {x : Effect α} {f : α → Effect β} {s s' : State} {b : β} :
    (x >>= f) s = .done b s' ↔ ∃ a s₁, x s = .done a s₁ ∧ f a s₁ = .done b s' := by
  rw [bind_apply]
  cases x s <;> simp [Outcome.bind, and_assoc]

theorem deeper_apply (x : Effect α) (s : State) :
    deeper x s = (x { s with depth := s.depth + 1 }).mapState State.leave := by
  simp only [deeper]
  cases x _ <;> rfl

theorem outcome_apply (x : Effect α) (s : State) : outcome x s = (x s).caught := by
  simp only [outcome]
  cases x s <;> rfl

theorem iterate_succ (step : β → Effect (β ⊕ γ)) (n : Nat) (b : β) :
    iterate step (n + 1) b = step b >>= Sum.elim (iterate step n) pure := by
  funext s
  rw [bind_apply, iterate]
  rcases step b s with ⟨_ | _, _⟩ | _ | _ <;> rfl

end Effect

end SmallScript
