namespace SmallScript

/-- Takes a value off the front of the characters, or fails. -/
abbrev Scan (α : Type) := StateT (List Char) Option α

namespace Scan

variable {α β : Type}

def satisfy (p : Char → Bool) : Scan Char
  | [] => none
  | c :: r => if p c then some (c, r) else none

def char (c : Char) : Scan Unit
  | [] => none
  | d :: r => if d = c then some ((), r) else none

def chars : List Char → Scan Unit
  | [], s => some ((), s)
  | _ :: _, [] => none
  | c :: w, d :: s => if d = c then chars w s else none

def text (w : String) : Scan Unit := chars w.toList

def run (p : Char → Bool) : Scan (List Char)
  | s => some (s.takeWhile p, s.dropWhile p)

def run1 (p : Char → Bool) : Scan (List Char)
  | [] => none
  | c :: r => if p c then some (c :: r.takeWhile p, r.dropWhile p) else none

/-- Looks at the next character without taking it: fails if `p` holds of it. -/
def notNext (p : Char → Bool) : Scan Unit
  | [] => some ((), [])
  | c :: r => if p c then none else some ((), c :: r)

def skip (f : List Char → List Char) : Scan Unit
  | s => some ((), f s)

def maybe (p : Scan α) : Scan (Option α)
  | s =>
    match p s with
    | none => some (none, s)
    | some (a, r) => some (some a, r)

def upTo (p : Scan α) : Nat → List Char → List α × List Char
  | 0, s => ([], s)
  | n + 1, s =>
    match p s with
    | none => ([], s)
    | some (a, r) =>
      let (as, r') := upTo p n r
      (a :: as, r')

/-- `p` as often as it succeeds. The characters left after the first success bound the number of
further ones, since every repeated reader takes at least one. -/
def repeated (p : Scan α) (s : List Char) : List α × List Char :=
  match p s with
  | none => ([], s)
  | some (a, r) =>
    let (as, r') := upTo p r.length r
    (a :: as, r')

def many (p : Scan α) : Scan (List α)
  | s => some (repeated p s)

/-- Items with separators between them. A separator without an item after it is left unread. -/
def sepBy (item : Scan α) (separator : Scan Unit) : Scan (List α) := do
  match ← maybe item with
  | none => return []
  | some a =>
    let rest ← many (do separator; item)
    return a :: rest

end Scan

end SmallScript
