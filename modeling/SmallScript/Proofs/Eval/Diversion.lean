import SmallScript.Proofs.Eval.Steps

namespace SmallScript.Eval

structure Spots where
  expr : Evaluator → FrameRef → Expr → State → Bool
  stmt : Evaluator → FrameRef → Stmt → State → Bool

def silent : Evaluator := ⟨0, fun _ _ _ => .exhausted, fun _ _ _ => .exhausted⟩

/-- A step over the evaluator `D`, but at the spots of runs by `E` the answer is that of `A`. -/
def divertExpr (host : Host) (P : Spots) (A E D : Evaluator) (f : FrameRef) (e : Expr) :
    Effect Value := fun s =>
  -- The plain run decides what is a spot, whatever was answered at other ones.
  bif P.expr E f e s then A.expr f e s else evalExpr host D f e s

def divertStmt (P : Spots) (A E D : Evaluator) (f : FrameRef) (t : Stmt) :
    Effect Completion := fun s =>
  bif P.stmt E f t s then A.stmt f t s else evalStmt D f t s

/-- The evaluator to a depth of `n`, but at the spots the answer is that of `A`. -/
def diverted (host : Host) (P : Spots) (A : Evaluator) : Nat → Evaluator
  | 0 => silent
  | n + 1 =>
    let D := diverted host P A n
    ⟨n, divertExpr host P A (evaluator host n) D, divertStmt P A (evaluator host n) D⟩

section

variable {host : Host} {P : Spots} {A : Evaluator} {n : Nat} {f : FrameRef} {s : State}

theorem diverted_expr_spot {e : Expr} (h : P.expr (evaluator host n) f e s = true) :
    (diverted host P A (n + 1)).expr f e s = A.expr f e s := by
  simp only [diverted, divertExpr, h, cond_true]

theorem diverted_expr {e : Expr} (h : P.expr (evaluator host n) f e s = false) :
    (diverted host P A (n + 1)).expr f e s = evalExpr host (diverted host P A n) f e s := by
  simp only [diverted, divertExpr, h, cond_false]

theorem diverted_stmt_spot {t : Stmt} (h : P.stmt (evaluator host n) f t s = true) :
    (diverted host P A (n + 1)).stmt f t s = A.stmt f t s := by
  simp only [diverted, divertStmt, h, cond_true]

theorem diverted_stmt {t : Stmt} (h : P.stmt (evaluator host n) f t s = false) :
    (diverted host P A (n + 1)).stmt f t s = evalStmt (diverted host P A n) f t s := by
  simp only [diverted, divertStmt, h, cond_false]

end

def Contract.lax (host : Host) : Contract host where
  ok _ := True
  allowed _ _ := True
  admits _ := True
  ok_empty := trivial
  allowed_normal _ _ := trivial
  allowed_broke _ _ := trivial
  allowed_continued _ _ := trivial
  allowed_returned _ _ _ _ := trivial
  allowed_loop _ _ _ := trivial
  admits_ordinary _ _ := trivial
  admits_sink _ _ _ := trivial
  admits_assign _ _ _ _ := .inr trivial
  admits_update _ _ _ := .inr trivial
  admits_body _ _ _ := trivial
  admits_top _ _ _ := .inr trivial

namespace Contract

variable {host : Host}

theorem lax_good (xs : List Part) : (lax host).Good xs := fun _ _ => trivial

theorem lax_holds (s : State) : (lax host).Holds s := fun _ _ => lax_good _

theorem lax_ends {α : Type} (post : α → Prop) (hpost : ∀ a, post a) (o : Outcome State α) :
    (lax host).Ends post o := by
  cases o with
  | done a s => exact ⟨lax_holds s, hpost a⟩
  | fail e s => exact ⟨lax_holds s, trivial⟩
  | exhausted => trivial

end Contract

def Comparison.below (host : Host) : Comparison host where
  toContract := .lax host
  like o o' := o = .exhausted ∨ o = o'
  like_refl _ := .inr rfl
  like_bind := by
    rintro α β o o' f g (rfl | rfl) hfg
    · exact .inl rfl
    · cases o with
      | done a s => exact hfg a s rfl
      | fail e s => exact .inr rfl
      | exhausted => exact .inr rfl
  like_leave := by
    rintro α o o' (rfl | rfl)
    · exact .inl rfl
    · exact .inr rfl

open Comparison

theorem below_catches {host : Host} : (below host).Catches := by
  rintro o o' (rfl | rfl)
  · exact .inl rfl
  · exact .inr rfl

/-- Giving up at the spots, an evaluator has no other outcome than one that takes the same steps
elsewhere. -/
theorem silent_below {host : Host} {P : Spots} {F : Nat → Evaluator} (hzero : F 0 = silent)
    (hfuel : ∀ n, (F (n + 1)).fuel = n)
    (hexpr : ∀ n f e s, P.expr (evaluator host n) f e s = false →
      (F (n + 1)).expr f e s = evalExpr host (F n) f e s)
    (hstmt : ∀ n f t s, P.stmt (evaluator host n) f t s = false →
      (F (n + 1)).stmt f t s = evalStmt (F n) f t s) (n : Nat) :
    (below host).Related (diverted host P silent n) (F n) := by
  induction n with
  | zero =>
      rw [hzero]
      exact ⟨.inl rfl, fun _ _ _ => agree_exhausted, fun _ _ _ _ => agree_exhausted⟩
  | succ n ih =>
      refine ih.step (.inl (hfuel n).symm) ?_ ?_ below_catches
      · intro f e _ s _
        cases hP : P.expr (evaluator host n) f e s with
        | true =>
            exact .inr ⟨.inl (diverted_expr_spot hP), Contract.lax_ends _ (fun _ => trivial) _⟩
        | false => exact .inl ⟨diverted_expr hP, hexpr n f e s hP⟩
      · intro p f t _ s _
        cases hP : P.stmt (evaluator host n) f t s with
        | true =>
            exact .inr ⟨.inl (diverted_stmt_spot hP), Contract.lax_ends _ (fun _ => trivial) _⟩
        | false => exact .inl ⟨diverted_stmt hP, hstmt n f t s hP⟩

theorem silent_below_evaluator (host : Host) (P : Spots) (n : Nat) :
    (below host).Related (diverted host P silent n) (evaluator host n) :=
  silent_below rfl (fun _ => rfl) (fun _ _ _ _ _ => rfl) (fun _ _ _ _ _ => rfl) n

theorem silent_below_diverted (host : Host) (P : Spots) (A : Evaluator) (n : Nat) :
    (below host).Related (diverted host P silent n) (diverted host P A n) :=
  silent_below rfl (fun _ => rfl) (fun _ _ _ _ h => diverted_expr h)
    (fun _ _ _ _ h => diverted_stmt h) n

end SmallScript.Eval
