import SmallScript.Tree

namespace SmallScript

inductive ErrorClass where
  | error
  | typeError
  | referenceError
  | syntaxError
  | rangeError
  deriving DecidableEq

def ErrorClass.name : ErrorClass → String
  | error => "Error"
  | typeError => "TypeError"
  | referenceError => "ReferenceError"
  | syntaxError => "SyntaxError"
  | rangeError => "RangeError"

inductive Builtin where
  | log
  | print
  /-- Ends the running test with an error that no program can catch. -/
  | failTest
  | isNaN
  | isFinite
  | toText
  | toNumber
  | toBoolean
  | error (c : ErrorClass)
  deriving DecidableEq

namespace Builtin

def name : Builtin → String
  | log => "log"
  | print => "$PRINT"
  | failTest => "$ERROR"
  | isNaN => "isNaN"
  | isFinite => "isFinite"
  | toText => "String"
  | toNumber => "Number"
  | toBoolean => "Boolean"
  | error c => c.name

def isConstructor : Builtin → Bool
  | error _ => true
  | _ => false

def all : List Builtin :=
  [log, print, failTest, isNaN, isFinite, toText, toNumber, toBoolean, error .error,
   error .typeError, error .referenceError, error .syntaxError, error .rangeError]

def ofName? (x : String) : Option Builtin := all.find? fun b => b.name == x

end Builtin

abbrev ArrayRef := Nat

abbrev ObjectRef := Nat

abbrev ClosureRef := Nat

abbrev FrameRef := Nat

inductive Value where
  | undefined
  | null
  | bool (b : Bool)
  | number (x : Float)
  | string (s : String)
  | array (a : ArrayRef)
  | object (o : ObjectRef)
  | builtin (b : Builtin)
  | closure (c : ClosureRef)

instance : Inhabited Value := ⟨.undefined⟩

namespace Value

def typeName : Value → String
  | undefined => "undefined"
  | null | array _ | object _ => "object"
  | bool _ => "boolean"
  | number _ => "number"
  | string _ => "string"
  | builtin _ | closure _ => "function"

def isNullish : Value → Bool
  | undefined | null => true
  | _ => false

def truthy : Value → Bool
  | undefined | null => false
  | bool b => b
  | number x => !(x == 0 || x.isNaN)
  | string s => s != ""
  | array _ | object _ | builtin _ | closure _ => true

def strictEquals : Value → Value → Bool
  | undefined, undefined => true
  | null, null => true
  | bool a, bool b => a == b
  | number x, number y => x == y
  | string s, string t => s == t
  | array a, array b => a == b
  | object a, object b => a == b
  | builtin a, builtin b => a == b
  | closure a, closure b => a == b
  | _, _ => false

end Value

end SmallScript
