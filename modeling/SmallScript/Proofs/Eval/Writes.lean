import SmallScript.Eval.Program
import SmallScript.Proofs.Outcome

namespace SmallScript.Eval

open Effect

def assigned (E : Evaluator) (f : FrameRef) (op : AssignOp) (l r : Expr) :
    Effect (Target × Value) := do
  let target ← evalTarget E f l
  let v ← match op with
    | .set => E.expr f r
    | op => do
      let old ← target.read f
      let new ← E.expr f r
      look fun m => m.compound op old new
  return (target, v)

theorem evalAssign_eq (E : Evaluator) (f : FrameRef) (op : AssignOp) (l r : Expr) :
    evalAssign E f op l r =
      assigned E f op l r >>= fun p => p.1.write f p.2 >>= fun _ => pure p.2 := by
  rw [evalAssign, assigned, bind_assoc]
  congr 1
  funext target
  cases op <;> simp only [bind_assoc, pure_bind]

def evalInit (E : Evaluator) (f : FrameRef) : Option Expr → Effect (Option Value)
  | none => pure none
  | some e => some <$> E.expr f e

def store (f : FrameRef) (kind : DeclKind) (x : String) (v : Option Value) : Effect Unit :=
  match kind, v with
  | .var, some v => assign f x v
  | .var, none => pure ()
  | .letDecl, v => declare f x (v.getD .undefined) true
  | .constDecl, v => declare f x (v.getD .undefined) false

theorem evalDeclarators_cons (E : Evaluator) (f : FrameRef) (kind : DeclKind) (x : String)
    (init : Option Expr) (ds : List (String × Option Expr)) :
    evalDeclarators E f kind ((x, init) :: ds) =
      evalInit E f init >>= fun v => store f kind x v >>= fun _ => evalDeclarators E f kind ds := by
  cases init <;> cases kind <;>
    simp only [evalDeclarators, evalInit, store, map_eq_pure_bind, bind_assoc, pure_bind]

/-- A declaration is about to store the value `v` under the name `x`, in the state `s'`. -/
inductive Stores (E : Evaluator) (f : FrameRef) (kind : DeclKind) (x : String) (v : Option Value)
    (s' : State) : List (String × Option Expr) → State → Prop where
  | here {init : Option Expr} {ds : List (String × Option Expr)} {s : State}
      (h : evalInit E f init s = .done v s') : Stores E f kind x v s' ((x, init) :: ds) s
  | later {y : String} {init : Option Expr} {ds : List (String × Option Expr)} {s s₁ s₂ : State}
      {w : Option Value} (hinit : evalInit E f init s = .done w s₁)
      (hstore : store f kind y w s₁ = .done () s₂) (h : Stores E f kind x v s' ds s₂) :
      Stores E f kind x v s' ((y, init) :: ds) s

/-- An assignment is about to write to a name that has no binding. -/
def ExprCreates (E : Evaluator) (f : FrameRef) (x : String) (e : Expr) (s : State) : Prop :=
  ∃ op l r v s', e = .assign op l r ∧ assigned E f op l r s = .done (.name x, v) s' ∧
    s'.memory.resolve? f x = none

/-- A `var` declaration is about to write to a name that has no binding. -/
def StmtCreates (E : Evaluator) (f : FrameRef) (x : String) (t : Stmt) (s : State) : Prop :=
  ∃ ds v s', t = .decl .var ds ∧ Stores E f .var x (some v) s' ds s ∧
    s'.memory.resolve? f x = none

end SmallScript.Eval
