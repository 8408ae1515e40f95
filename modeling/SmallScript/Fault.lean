import SmallScript.Early
import SmallScript.Grammar.Program
import SmallScript.Memory.Display

namespace SmallScript

inductive FaultKind where
  | syntaxError
  | typeError
  | referenceError
  | rangeError
  | thrown
  | testError
  | internalError
  deriving DecidableEq

def FaultKind.name : FaultKind → String
  | syntaxError => "SyntaxError"
  | typeError => "TypeError"
  | referenceError => "ReferenceError"
  | rangeError => "RangeError"
  | thrown => "Thrown"
  | testError => "TestError"
  | internalError => "InternalError"

inductive Nullish where
  | undefined
  | null
  deriving DecidableEq

def Nullish.name : Nullish → String
  | undefined => "undefined"
  | null => "null"

inductive Fault where
  | unparsable (e : ParseError)
  | early (e : EarlyError)
  | assignTarget
  | notDefined (name : String)
  | constantAssigned
  | notFunction (callee : String)
  | notConstructor (callee : String)
  | readOf (base : Nullish) (key : String)
  | writeTo (base : Nullish) (key : String)
  | arrayLength
  | arrayTooLong (length : Nat)
  | tooDeep
  | thrown (v : Value)
  | testFailed (message : String)
  | sinkFailed (message : String)
  /-- A jump that no loop or function took up, with its description. -/
  | strayJump (jump : String)
  | strayJumpInBody
  | notShortCircuited (op : BinaryOp)

namespace Fault

def kind : Fault → FaultKind
  | early .noScope => .internalError
  | unparsable _ | early _ | assignTarget => .syntaxError
  | notDefined _ => .referenceError
  | constantAssigned | notFunction _ | notConstructor _ | readOf .. | writeTo .. => .typeError
  | arrayLength | arrayTooLong _ | tooDeep => .rangeError
  | thrown _ => .thrown
  | testFailed _ => .testError
  | sinkFailed _ | strayJump _ | strayJumpInBody | notShortCircuited _ => .internalError

def isCatchable (e : Fault) : Bool :=
  match e.kind with
  | .testError | .internalError => false
  | _ => true

def maxArrayLength : Nat := Nat.pow 2 24

def wording : Fault → String
  | unparsable e => e.message
  | early e => e.message
  | assignTarget => EarlyError.assignTarget.message
  | notDefined x => x ++ " is not defined"
  | constantAssigned => "Assignment to constant variable."
  | notFunction f => f ++ " is not a function"
  | notConstructor f => f ++ " is not a constructor"
  | readOf v k => "Cannot read properties of " ++ v.name ++ " (reading '" ++ k ++ "')"
  | writeTo v k => "Cannot set properties of " ++ v.name ++ " (setting '" ++ k ++ "')"
  | arrayLength => "Invalid array length"
  | arrayTooLong n =>
    "Array length " ++ toString n ++ " exceeds the supported maximum of "
      ++ toString maxArrayLength
  | tooDeep => "Maximum call stack size exceeded"
  | thrown _ => ""
  | testFailed s => s
  | sinkFailed s => s
  | strayJump j => "Unhandled control flow completion: " ++ j
  | strayJumpInBody => "Unhandled control flow completion in function body"
  | notShortCircuited op => "Logical operator '" ++ op.symbol ++ "' was not short circuited"

def message (m : Memory) : Fault → String
  | thrown v => if m.isError v then m.display v else "Uncaught " ++ m.inspect v
  | e => e.kind.name ++ ": " ++ e.wording

/-- The value that a handler receives: the thrown one, or a new error object. -/
def toValue (m : Memory) : Fault → Value × Memory
  | thrown v => (v, m)
  | e =>
    let (o, m) := m.newError e.kind.name e.wording
    (.object o, m)

theorem closures_toValue (e : Fault) (m : Memory) : (e.toValue m).2.closures = m.closures := by
  cases e <;> rfl

end Fault

end SmallScript
