import SmallScript.Memory.Display
import SmallScript.Number.Reading
import SmallScript.Number.Word
import SmallScript.Text.Units

namespace SmallScript.Memory

def toNumber (m : Memory) (v : Value) : Float :=
  match v with
  | .undefined => Number.Double.nan
  | .null => 0
  | .bool b => if b then 1 else 0
  | .number x => x
  | .string s => Number.Reading.ofString s
  | .array _ | .object _ => Number.Reading.ofString (m.display v)
  | .builtin _ | .closure _ => Number.Double.nan

def toWord (m : Memory) (v : Value) : UInt32 := Number.Word.ofDouble (m.toNumber v)

def toPrimitive (m : Memory) (v : Value) : Value :=
  match v with
  | .array _ | .object _ | .builtin _ | .closure _ => .string (m.display v)
  | v => v

def countBool : Value → Value
  | .bool b => .number (if b then 1 else 0)
  | v => v

/-- `==` of two values of which none is a boolean, `undefined` or `null`. -/
def looseEqualsPlain (m : Memory) (v w : Value) : Bool :=
  match v, w with
  | .number x, .number y => x == y
  | .string s, .string t => s == t
  | .number x, w => x == Number.Reading.ofString (m.display w)
  | v, .number y => Number.Reading.ofString (m.display v) == y
  | .string s, w => s == m.display w
  | v, .string t => m.display v == t
  | v, w => v.strictEquals w

/-- `==`: `undefined` and `null` equal each other and nothing else, booleans count as numbers, and
a reference against a number or a string counts as its text. -/
def looseEquals (m : Memory) (v w : Value) : Bool :=
  if v.isNullish || w.isNullish then v.isNullish && w.isNullish
  else m.looseEqualsPlain (countBool v) (countBool w)

def compareNumbers (x y : Float) : Option Ordering :=
  if x < y then some .lt
  else if y < x then some .gt
  else if x == y then some .eq
  else none

/-- The order of two values: of strings by their UTF-16 units, of all others as numbers. -/
def compareValues (m : Memory) (v w : Value) : Option Ordering :=
  match m.toPrimitive v, m.toPrimitive w with
  | .string s, .string t => some (Text.Units.compare s t)
  | v, w => compareNumbers (m.toNumber v) (m.toNumber w)

end SmallScript.Memory
