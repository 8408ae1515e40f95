import SmallScript.Eval.Expression

namespace SmallScript.Eval

open Effect

def evalDeclarators (E : Evaluator) (f : FrameRef) (kind : DeclKind) :
    List (String × Option Expr) → Effect Unit
  | [] => return ()
  | (x, init) :: ds => do
    let v ← match init with
      | some e => some <$> E.expr f e
      | none => pure none
    match kind, v with
    | .var, some v => assign f x v
    | .var, none => pure ()
    | .letDecl, v => declare f x (v.getD .undefined) true
    | .constDecl, v => declare f x (v.getD .undefined) false
    evalDeclarators E f kind ds

def afterPass (last : Option Value) : Completion → Option Value ⊕ Completion
  | .normal v => .inl (v <|> last)
  | .continued => .inl last
  | .broke => .inr (.normal last)
  | .returned v => .inr (.returned v)

def whilePass (E : Evaluator) (f : FrameRef) (test : Expr) (body : Stmt) (last : Option Value) :
    Effect (Option Value ⊕ Completion) := do
  if (← E.expr f test).truthy then return afterPass last (← E.stmt f body)
  else return .inr (.normal last)

def doPass (E : Evaluator) (f : FrameRef) (body : Stmt) (test : Expr) (last : Option Value) :
    Effect (Option Value ⊕ Completion) := do
  match afterPass last (← E.stmt f body) with
  | .inr c => return .inr c
  | .inl last =>
    if (← E.expr f test).truthy then return .inl last else return .inr (.normal last)

/-- The names that every pass of a `for` loop has for itself, and whether they may change. -/
def loopNames : Option Stmt → List (String × Bool)
  | some (.decl .letDecl ds) => ds.map fun (x, _) => (x, true)
  | some (.decl .constDecl ds) => ds.map fun (x, _) => (x, false)
  | _ => []

def copyNames (source target : FrameRef) : List (String × Bool) → Effect Unit
  | [] => return ()
  | (x, isMutable) :: xs => do
    let v ← look fun m => (m.lookup? source x).getD .undefined
    declare target x v isMutable
    copyNames source target xs

/-- The frame of the next pass: a new one inside `f`, or the same if no name is copied. -/
def nextFrame (f inner : FrameRef) (names : List (String × Bool)) : Effect FrameRef :=
  match names with
  | [] => return inner
  | names => do
    let next ← blockFrame f
    copyNames inner next names
    return next

def holds (E : Evaluator) (f : FrameRef) : Option Expr → Effect Bool
  | none => return true
  | some e => do return (← E.expr f e).truthy

def evalMaybe (E : Evaluator) (f : FrameRef) : Option Expr → Effect Unit
  | none => pure ()
  | some e => do
    let _ ← E.expr f e

def forPass (E : Evaluator) (f : FrameRef) (names : List (String × Bool))
    (test update : Option Expr) (body : Stmt) (pass : FrameRef × Option Value) :
    Effect ((FrameRef × Option Value) ⊕ Completion) := do
  let (inner, last) := pass
  if ← holds E inner test then
    match afterPass last (← E.stmt inner body) with
    | .inr c => return .inr c
    | .inl last =>
      let next ← nextFrame f inner names
      evalMaybe E next update
      return .inl (next, last)
  else return .inr (.normal last)

def evalFor (E : Evaluator) (f : FrameRef) (init : Option Stmt) (test update : Option Expr)
    (body : Stmt) : Effect Completion := do
  let inner ← blockFrame f
  match init with
  | some s => do
    let _ ← E.stmt inner s
  | none => pure ()
  iterate (forPass E f (loopNames init) test update body) E.fuel (inner, none)

def evalBlock (E : Evaluator) (f : FrameRef) (body : List Stmt) : Effect Completion := do
  runBody E (← blockFrame f) body

def evalHandler (E : Evaluator) (f : FrameRef) (param : String) (body : List Stmt) (e : Fault) :
    Effect Completion := do
  let inner ← blockFrame f
  let v ← allocate fun m => e.toValue m
  declare inner param v true
  runBody E inner body

/-- What the handler makes of the result of the body; faults that no program can catch pass it. -/
def handled (E : Evaluator) (f : FrameRef) (handler : Option (String × List Stmt))
    (result : Except Fault Completion) : Effect (Except Fault Completion) :=
  match handler, result with
  | some (param, body), .error e =>
    if e.isCatchable then outcome (evalHandler E f param body e) else return result
  | _, _ => return result

def attempt (E : Evaluator) (f : FrameRef) (body : List Stmt)
    (handler : Option (String × List Stmt)) : Effect (Except Fault Completion) := do
  handled E f handler (← outcome (evalBlock E f body))

/-- What the finalizer makes of a result. A fault or an abrupt end of it replaces the result. -/
def finish (E : Evaluator) (f : FrameRef) (result : Except Fault Completion) :
    Option (List Stmt) → Effect Completion
  | none => ofExcept result
  | some body => do
    match ← evalBlock E f body with
    | .normal _ => ofExcept result
    | abrupt => return abrupt

def evalTry (E : Evaluator) (f : FrameRef) (body : List Stmt)
    (handler : Option (String × List Stmt)) (finalizer : Option (List Stmt)) :
    Effect Completion := do
  finish E f (← attempt E f body handler) finalizer

def evalReturn (E : Evaluator) (f : FrameRef) : Option Expr → Effect Completion
  | none => return .returned .undefined
  | some e => do return .returned (← E.expr f e)

def evalStmt (E : Evaluator) (f : FrameRef) : Stmt → Effect Completion
  | .decl kind ds => do
    evalDeclarators E f kind ds
    return .normal none
  | .function _ => return .normal none
  | .ifElse test t e => do
    if (← E.expr f test).truthy then E.stmt f t
    else
      match e with
      | some e => E.stmt f e
      | none => return .normal none
  | .whileLoop test body => iterate (whilePass E f test body) E.fuel none
  | .doWhile body test => iterate (doPass E f body test) E.fuel none
  | .forLoop init test update body => evalFor E f init test update body
  | .block body => evalBlock E f body
  | .tryCatch body handler finalizer => evalTry E f body handler finalizer
  | .breakLoop => return .broke
  | .continueLoop => return .continued
  | .returnValue e => evalReturn E f e
  | .throw e => do fail (.thrown (← E.expr f e))
  | .expr e => do return .normal (some (← E.expr f e))
  | .empty => return .normal none

end SmallScript.Eval
