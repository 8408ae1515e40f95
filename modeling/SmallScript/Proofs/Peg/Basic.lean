import SmallScript.Scan

namespace SmallScript

/-- Expressions that come to a value of the given type. -/
inductive Peg {R : Type} (Result : R → Type) : Type → Type 1
  | value {α : Type} (a : α) : Peg Result α
  /-- One character that `f` has a value for. -/
  | satisfy {α : Type} (f : Char → Option α) : Peg Result α
  | rule {α : Type} (r : R) (f : Result r → α) : Peg Result α
  | seq {α β γ : Type} (f : α → β → γ) (p : Peg Result α) (q : Peg Result β) : Peg Result γ
  /-- `q` from where `p` started, if `p` fails. -/
  | alt {α : Type} (p q : Peg Result α) : Peg Result α
  /-- Fails where `f` has no value. -/
  | convert {α β : Type} (f : α → Option β) (p : Peg Result α) : Peg Result β
  /-- `p` until it fails. -/
  | many {α β : Type} (f : List α → β) (p : Peg Result α) : Peg Result β
  /-- Fails where `p` does not, and takes nothing. -/
  | absent {α β : Type} (b : β) (p : Peg Result α) : Peg Result β

namespace Peg

variable {R : Type} {Result : R → Type} {α β γ : Type}

/-- The expression runs on a text to an answer: it fails, or comes to a value and leaves a rest. -/
inductive Runs (body : ∀ r, Peg Result (Result r)) :
    {α : Type} → Peg Result α → List Char → Option (α × List Char) → Prop
  | value {α : Type} (a : α) (s : List Char) : Runs body (.value a) s (some (a, s))
  | satisfy_nil {α : Type} (f : Char → Option α) : Runs body (.satisfy f) [] none
  | satisfy_cons {α : Type} (f : Char → Option α) (c : Char) (s : List Char) :
      Runs body (.satisfy f) (c :: s) ((f c).map fun a => (a, s))
  | rule {α : Type} {r : R} {f : Result r → α} {s : List Char} {x : Option (Result r × List Char)}
      (h : Runs body (body r) s x) : Runs body (.rule r f) s (x.map fun y => (f y.1, y.2))
  | seq_none {α β γ : Type} {f : α → β → γ} {p : Peg Result α} {q : Peg Result β} {s : List Char}
      (h : Runs body p s none) : Runs body (.seq f p q) s none
  | seq_some {α β γ : Type} {f : α → β → γ} {p : Peg Result α} {q : Peg Result β}
      {s t : List Char} {a : α} {x : Option (β × List Char)} (h : Runs body p s (some (a, t)))
      (h' : Runs body q t x) : Runs body (.seq f p q) s (x.map fun y => (f a y.1, y.2))
  | alt_some {α : Type} {p q : Peg Result α} {s : List Char} {x : α × List Char}
      (h : Runs body p s (some x)) : Runs body (.alt p q) s (some x)
  | alt_none {α : Type} {p q : Peg Result α} {s : List Char} {x : Option (α × List Char)}
      (h : Runs body p s none) (h' : Runs body q s x) : Runs body (.alt p q) s x
  | convert {α β : Type} {f : α → Option β} {p : Peg Result α} {s : List Char}
      {x : Option (α × List Char)} (h : Runs body p s x) :
      Runs body (.convert f p) s (x.bind fun y => (f y.1).map fun b => (b, y.2))
  | many_nil {α β : Type} {f : List α → β} {p : Peg Result α} {s : List Char}
      (h : Runs body p s none) : Runs body (.many f p) s (some (f [], s))
  | many_cons {α β : Type} {f : List α → β} {p : Peg Result α} {s t : List Char} {a : α}
      {x : Option (β × List Char)} (h : Runs body p s (some (a, t)))
      (h' : Runs body (.many (fun as => f (a :: as)) p) t x) : Runs body (.many f p) s x
  | absent_none {α β : Type} {b : β} {p : Peg Result α} {s : List Char} (h : Runs body p s none) :
      Runs body (.absent b p) s (some (b, s))
  | absent_some {α β : Type} {b : β} {p : Peg Result α} {s : List Char} {x : α × List Char}
      (h : Runs body p s (some x)) : Runs body (.absent b p) s none

/-- Running `p` on `s` comes to the rule `r` on the text `t`. -/
inductive Comes (body : ∀ r, Peg Result (Result r)) :
    {α : Type} → Peg Result α → List Char → R → List Char → Prop
  | rule {α : Type} (r : R) (f : Result r → α) (s : List Char) : Comes body (.rule r f) s r s
  | seq_left {α β γ : Type} {f : α → β → γ} {p : Peg Result α} {q : Peg Result β} {s t : List Char}
      {r : R} (h : Comes body p s r t) : Comes body (.seq f p q) s r t
  | seq_right {α β γ : Type} {f : α → β → γ} {p : Peg Result α} {q : Peg Result β}
      {s t u : List Char} {r : R} {a : α} (hp : Runs body p s (some (a, u)))
      (h : Comes body q u r t) : Comes body (.seq f p q) s r t
  | alt_left {α : Type} {p q : Peg Result α} {s t : List Char} {r : R} (h : Comes body p s r t) :
      Comes body (.alt p q) s r t
  | alt_right {α : Type} {p q : Peg Result α} {s t : List Char} {r : R} (hp : Runs body p s none)
      (h : Comes body q s r t) : Comes body (.alt p q) s r t
  | convert {α β : Type} {f : α → Option β} {p : Peg Result α} {s t : List Char} {r : R}
      (h : Comes body p s r t) : Comes body (.convert f p) s r t
  | many_first {α β : Type} {f : List α → β} {p : Peg Result α} {s t : List Char} {r : R}
      (h : Comes body p s r t) : Comes body (.many f p) s r t
  | many_next {α β : Type} {f : List α → β} {p : Peg Result α} {s t u : List Char} {r : R} {a : α}
      (hp : Runs body p s (some (a, u))) (h : Comes body (.many f p) u r t) :
      Comes body (.many f p) s r t
  | absent {α β : Type} {b : β} {p : Peg Result α} {s t : List Char} {r : R}
      (h : Comes body p s r t) : Comes body (.absent b p) s r t

/-- The rule comes to another one on a text, without one in between. -/
def Calls (body : ∀ r, Peg Result (Result r)) (x y : R × List Char) : Prop :=
  Comes body (body x.1) x.2 y.1 y.2

/-- Every success of the expression takes a character. -/
def Consumes (body : ∀ r, Peg Result (Result r)) (p : Peg Result α) : Prop :=
  ∀ s a t, Runs body p s (some (a, t)) → t.length < s.length

/-- What the expression reads, if the rules read what `g` says. -/
def read (g : ∀ r, Scan (Result r)) : {α : Type} → Peg Result α → Scan α
  | _, .value a => pure a
  | _, .satisfy f => fun s =>
    match s with
    | [] => none
    | c :: r => (f c).map fun a => (a, r)
  | _, .rule r f => f <$> g r
  | _, .seq f p q => do
    let a ← p.read g
    let b ← q.read g
    return f a b
  | _, .alt p q => p.read g <|> q.read g
  | _, .convert f p => do
    let a ← p.read g
    match f a with
    | some b => return b
    | none => failure
  | _, .many f p => f <$> Scan.many (p.read g)
  | _, .absent b p => fun s =>
    match p.read g s with
    | none => some (b, s)
    | some _ => none

theorem Runs.unique {body : ∀ r, Peg Result (Result r)} {p : Peg Result α} {s : List Char}
    {x y : Option (α × List Char)} (h : Runs body p s x) (h' : Runs body p s y) : x = y := by
  induction h with
  | value | satisfy_nil | satisfy_cons => cases h'; rfl
  | rule _ ih =>
      cases h' with
      | rule h' => rw [ih h']
  | seq_none _ ih =>
      cases h' with
      | seq_none => rfl
      | seq_some h' => cases ih h'
  | seq_some _ _ ihp ihq =>
      cases h' with
      | seq_none h' => cases ihp h'
      | seq_some h' h'' =>
          cases ihp h'
          rw [ihq h'']
  | alt_some _ ih =>
      cases h' with
      | alt_some h' => exact ih h'
      | alt_none h' => cases ih h'
  | alt_none _ _ ihp ihq =>
      cases h' with
      | alt_some h' => cases ihp h'
      | alt_none _ h' => exact ihq h'
  | convert _ ih =>
      cases h' with
      | convert h' => rw [ih h']
  | many_nil _ ih =>
      cases h' with
      | many_nil => rfl
      | many_cons h' => cases ih h'
  | many_cons _ _ ihp ihq =>
      cases h' with
      | many_nil h' => cases ihp h'
      | many_cons h' h'' =>
          cases ihp h'
          exact ihq h''
  | absent_none _ ih =>
      cases h' with
      | absent_none => rfl
      | absent_some h' => cases ih h'
  | absent_some _ ih =>
      cases h' with
      | absent_none h' => cases ih h'
      | absent_some => rfl

end Peg

end SmallScript
