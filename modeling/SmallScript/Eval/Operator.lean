import SmallScript.Fault
import SmallScript.Memory.Convert

namespace SmallScript.Memory

open Number

def arithmetic (m : Memory) (f : Float → Float → Float) (v w : Value) : Value :=
  .number (f (m.toNumber v) (m.toNumber w))

def add (m : Memory) (v w : Value) : Value :=
  match m.toPrimitive v, m.toPrimitive w with
  | .string s, w => .string (s ++ m.display w)
  | v, .string t => .string (m.display v ++ t)
  | v, w => m.arithmetic (· + ·) v w

def bitwise (m : Memory) (f : UInt32 → UInt32 → UInt32) (v w : Value) : Value :=
  .number (Word.signedToDouble (f (m.toWord v) (m.toWord w)))

def inOrder (m : Memory) (orders : List Ordering) (v w : Value) : Value :=
  .bool <|
    match m.compareValues v w with
    | some o => orders.contains o
    | none => false

def binary (m : Memory) (op : BinaryOp) (v w : Value) : Except Fault Value :=
  match op with
  | .mul => .ok (m.arithmetic (· * ·) v w)
  | .div => .ok (m.arithmetic (· / ·) v w)
  | .rem => .ok (m.arithmetic Double.remainder v w)
  | .add => .ok (m.add v w)
  | .sub => .ok (m.arithmetic (· - ·) v w)
  | .shiftLeft => .ok (m.bitwise (fun x y => x <<< (y &&& 31)) v w)
  | .shiftRight => .ok (m.bitwise (fun x y => Word.shiftRightSigned x (y &&& 31)) v w)
  | .shiftRightUnsigned => .ok (.number (Word.toDouble (m.toWord v >>> (m.toWord w &&& 31))))
  | .less => .ok (m.inOrder [.lt] v w)
  | .lessEq => .ok (m.inOrder [.lt, .eq] v w)
  | .greater => .ok (m.inOrder [.gt] v w)
  | .greaterEq => .ok (m.inOrder [.gt, .eq] v w)
  | .looseEq => .ok (.bool (m.looseEquals v w))
  | .looseNe => .ok (.bool (!m.looseEquals v w))
  | .strictEq => .ok (.bool (v.strictEquals w))
  | .strictNe => .ok (.bool (!v.strictEquals w))
  | .bitAnd => .ok (m.bitwise (· &&& ·) v w)
  | .bitXor => .ok (m.bitwise (· ^^^ ·) v w)
  | .bitOr => .ok (m.bitwise (· ||| ·) v w)
  | .and | .or => .error (.notShortCircuited op)

def compound (m : Memory) (op : AssignOp) (old new : Value) : Value :=
  match op with
  | .set => new
  | .add => m.add old new
  | .sub => m.arithmetic (· - ·) old new
  | .mul => m.arithmetic (· * ·) old new
  | .div => m.arithmetic (· / ·) old new
  | .rem => m.arithmetic Double.remainder old new

def unary (m : Memory) (op : UnaryOp) (v : Value) : Value :=
  match op with
  | .bitNot => .number (Word.signedToDouble (~~~ m.toWord v))
  | .not => .bool !v.truthy
  | .minus => .number (-m.toNumber v)
  | .plus => .number (m.toNumber v)
  | .typeOf => .string v.typeName

end SmallScript.Memory
