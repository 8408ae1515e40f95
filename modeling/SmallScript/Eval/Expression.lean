import SmallScript.Eval.Effect
import SmallScript.Eval.Operator

namespace SmallScript.Eval

open Effect

/-- How a statement finished, faults apart. -/
inductive Completion where
  /-- With the value of the last expression statement, if there was one. -/
  | normal (v : Option Value)
  | returned (v : Value)
  | broke
  | continued

/-- Evaluators of expressions and statements in a frame, and a bound for loops. -/
structure Evaluator where
  fuel : Nat
  expr : FrameRef → Expr → Effect Value
  stmt : FrameRef → Stmt → Effect Completion

inductive Target where
  | name (x : String)
  | property (base : Value) (key : String)

def Target.read (f : FrameRef) : Target → Effect Value
  | name x => readName f x
  | property base key => getProperty base key

def Target.write (f : FrameRef) (v : Value) : Target → Effect Unit
  | name x => assign f x v
  | property base key => setProperty base key v

def describe : Expr → String
  | .ident x => x
  | .paren e => describe e
  | .field e x => describe e ++ "." ++ x
  | .index e _ => describe e ++ "[...]"
  | .call e _ => describe e ++ "(...)"
  | _ => "expression"

def textOf (v : Value) : Effect String := look fun m => m.display v

def evalList (E : Evaluator) (f : FrameRef) : List Expr → Effect (List Value)
  | [] => return []
  | e :: es => do
    let v ← E.expr f e
    let vs ← evalList E f es
    return v :: vs

/-- The properties of an object literal: a key written again keeps its place and takes the later
value. -/
def evalProperties (E : Evaluator) (f : FrameRef) :
    Table Value → List (String × Expr) → Effect (Table Value)
  | t, [] => return t
  | t, (k, e) :: ps => do
    let v ← E.expr f e
    evalProperties E f (t.set k v) ps

def evalFunction (f : FrameRef) (definition : Function) : Effect Value := do
  match definition.name with
  | none => newClosure definition f
  | some x =>
    let inner ← blockFrame f
    let v ← newClosure definition inner
    declare inner x v true
    return v

def evalTarget (E : Evaluator) (f : FrameRef) : Expr → Effect Target
  | .ident x => return .name x
  | .paren e => evalTarget E f e
  | .field e x => do
    let base ← E.expr f e
    return .property base x
  | .index e k => do
    let base ← E.expr f e
    let key ← textOf (← E.expr f k)
    return .property base key
  | _ => fail .assignTarget

def updated (op : UpdateOp) (x : Float) : Float × Float :=
  match op with
  | .preIncrement => (x + 1, x + 1)
  | .preDecrement => (x - 1, x - 1)
  | .postIncrement => (x + 1, x)
  | .postDecrement => (x - 1, x)

def evalUpdate (E : Evaluator) (f : FrameRef) (op : UpdateOp) (e : Expr) : Effect Value := do
  let target ← evalTarget E f e
  let old ← target.read f
  let x ← look fun m => m.toNumber old
  let (stored, result) := updated op x
  target.write f (.number stored)
  return .number result

/-- An assignment. The target is evaluated first, and a compound one reads it before the value on
the right is evaluated. -/
def evalAssign (E : Evaluator) (f : FrameRef) (op : AssignOp) (l r : Expr) : Effect Value := do
  let target ← evalTarget E f l
  let v ← match op with
    | .set => E.expr f r
    | op => do
      let old ← target.read f
      let new ← E.expr f r
      look fun m => m.compound op old new
  target.write f v
  return v

def evalBinary (E : Evaluator) (f : FrameRef) (op : BinaryOp) (l r : Expr) : Effect Value := do
  let v ← E.expr f l
  match op with
  | .and => if v.truthy then E.expr f r else return v
  | .or => if v.truthy then return v else E.expr f r
  | op => do
    let w ← E.expr f r
    query fun m => m.binary op v w

/-- A unary operator. `typeof` of a name without a binding is no fault. -/
def evalUnary (E : Evaluator) (f : FrameRef) (op : UnaryOp) (e : Expr) : Effect Value := do
  let unbound ← match op, e with
    | .typeOf, .ident x => look fun m => (m.lookup? f x).isNone
    | _, _ => pure false
  if unbound then return .string "undefined"
  else
    let v ← E.expr f e
    look fun m => m.unary op v

def evalBuiltin (host : Host) (b : Builtin) (args : List Value) : Effect Value := do
  let first := args.headD .undefined
  match b with
  | .log | .print =>
    let line ← look fun m => " ".intercalate (args.map m.display)
    writeLine host line
    return .undefined
  | .failTest => fail (.testFailed (← textOf first))
  | .isNaN => look fun m => .bool (m.toNumber first).isNaN
  | .isFinite => look fun m => .bool (m.toNumber first).isFinite
  | .toText =>
    match args with
    | [] => return .string ""
    | v :: _ => return .string (← textOf v)
  | .toNumber =>
    match args with
    | [] => return .number 0
    | v :: _ => look fun m => .number (m.toNumber v)
  | .toBoolean => return .bool first.truthy
  | .error c =>
    let message ← match first with
      | .undefined => pure ""
      | v => textOf v
    newError c.name message

def varNames : Stmt → List String
  | .decl .var ds => ds.map Prod.fst
  | .ifElse _ t none => varNames t
  | .ifElse _ t (some f) => varNames t ++ varNames f
  | .whileLoop _ body => varNames body
  | .doWhile body _ => varNames body
  | .forLoop none _ _ body => varNames body
  | .forLoop (some init) _ _ body => varNames init ++ varNames body
  | .block body => varNamesOf body
  | .tryCatch body handler finalizer =>
    varNamesOf body
      ++ (match handler with
        | some (_, body) => varNamesOf body
        | none => [])
      ++ (match finalizer with
        | some body => varNamesOf body
        | none => [])
  | _ => []
where
  varNamesOf : List Stmt → List String
    | [] => []
    | s :: ss => varNames s ++ varNamesOf ss

def hoistVars (f : FrameRef) (body : List Stmt) : Effect Unit :=
  change fun m => (varNames.varNamesOf body).foldl (fun m x => m.declareVar f x) m

def hoistFunctions (f : FrameRef) : List Stmt → Effect Unit
  | [] => return ()
  | .function definition :: ss => do
    match definition.name with
    | some x => declare f x (← newClosure definition f) true
    | none => pure ()
    hoistFunctions f ss
  | _ :: ss => hoistFunctions f ss

/-- Runs statements in order until one ends abruptly. The value is that of the last statement that
had one. -/
def runInOrder (E : Evaluator) (f : FrameRef) : Option Value → List Stmt → Effect Completion
  | last, [] => return .normal last
  | last, s :: ss => do
    match ← E.stmt f s with
    | .normal v => runInOrder E f (v <|> last) ss
    | abrupt => return abrupt

def runBody (E : Evaluator) (f : FrameRef) (body : List Stmt) : Effect Completion := do
  hoistFunctions f body
  runInOrder E f none body

/-- Binds parameters to arguments; missing ones are `undefined`, further ones are dropped. -/
def bindParams (f : FrameRef) : List String → List Value → Effect Unit
  | [], _ => return ()
  | x :: xs, args => do
    declare f x (args.headD .undefined) true
    bindParams f xs args.tail

def callResult : Completion → Effect Value
  | .returned v => return v
  | .normal _ => return .undefined
  | .broke | .continued => fail .strayJumpInBody

def callBody (E : Evaluator) (c : ClosureRef) (args : List Value) : Effect Completion := do
  let closure ← look fun m => m.closureAt c
  let f ← allocate fun m => m.newFrame (some closure.scope) true
  bindParams f closure.definition.params args
  hoistVars f closure.definition.body
  deeper (runBody E f closure.definition.body)

def callClosure (host : Host) (E : Evaluator) (c : ClosureRef) (args : List Value) :
    Effect Value := do
  if host.maxDepth ≤ (← depth) then fail .tooDeep
  else callResult (← callBody E c args)

def evalOperands (E : Evaluator) (f : FrameRef) (callee : Expr) (args : List Expr) :
    Effect (Value × List Value) := do
  let v ← E.expr f callee
  let vs ← evalList E f args
  return (v, vs)

def evalCall (host : Host) (E : Evaluator) (f : FrameRef) (callee : Expr) (args : List Expr) :
    Effect Value := do
  match ← evalOperands E f callee args with
  | (.builtin b, vs) => evalBuiltin host b vs
  | (.closure c, vs) => callClosure host E c vs
  | _ => fail (.notFunction (describe callee))

def evalNew (host : Host) (E : Evaluator) (f : FrameRef) (callee : Expr) (args : List Expr) :
    Effect Value := do
  match ← evalOperands E f callee args with
  | (.builtin b, vs) =>
    if b.isConstructor then evalBuiltin host b vs else fail (.notConstructor (describe callee))
  | _ => fail (.notConstructor (describe callee))

def evalIndex (E : Evaluator) (f : FrameRef) (e k : Expr) : Effect Value := do
  let base ← E.expr f e
  let key ← textOf (← E.expr f k)
  getProperty base key

def evalExpr (host : Host) (E : Evaluator) (f : FrameRef) : Expr → Effect Value
  | .ident x => readName f x
  | .number x => return .number x
  | .bool b => return .bool b
  | .null => return .null
  | .string s => return .string s
  | .paren e => E.expr f e
  | .array items => do newArray (← evalList E f items)
  | .object properties => do newObject (← evalProperties E f [] properties)
  | .function definition => evalFunction f definition
  | .field e x => do getProperty (← E.expr f e) x
  | .index e k => evalIndex E f e k
  | .call callee args => evalCall host E f callee args
  | .new callee args => evalNew host E f callee args
  | .binary op l r => evalBinary E f op l r
  | .unary op e => evalUnary E f op e
  | .update op e => evalUpdate E f op e
  | .assign op l r => evalAssign E f op l r
  | .cond c t e => do
    if (← E.expr f c).truthy then E.expr f t else E.expr f e

end SmallScript.Eval
