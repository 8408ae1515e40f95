import SmallScript.Lexical.Name
import SmallScript.Number.Numeral
import SmallScript.Proofs.Lockstep

namespace SmallScript.Lexical

open Scan

def isLexical (c : Char) : Bool := isNamePart c || c == '.' || c == '+' || c == '-'

structure Lexemes (T : List Char → List Char → Prop) : Prop where
  agree : ∀ {s t}, T s t → ∀ {p : Char → Bool}, (∀ c, p c = true → isLexical c = true) →
    Agree p T s t

theorem isLexical_of_isNamePart {c : Char} (h : isNamePart c = true) : isLexical c = true := by
  rw [isLexical, h, Bool.true_or, Bool.true_or, Bool.true_or]

theorem isNamePart_of_isNameStart {c : Char} (h : isNameStart c = true) : isNamePart c = true := by
  rw [isNamePart, h, Bool.true_or]

theorem isNamePart_of_isDigit {c : Char} (h : isDigit c = true) : isNamePart c = true := by
  rw [isNamePart, h, Bool.or_true]

theorem isNamePart_of_isHexDigit {c : Char} (h : isHexDigit c = true) : isNamePart c = true := by
  simp only [isHexDigit, isNamePart, isNameStart, isLetter, isDigit, Bool.or_eq_true,
    decide_eq_true_eq] at h ⊢
  rcases h with (h | h) | h
  · exact .inr h
  · exact .inl (.inl (.inl (.inl ⟨h.1, Char.le_trans h.2 (by decide)⟩)))
  · exact .inl (.inl (.inl (.inr ⟨h.1, Char.le_trans h.2 (by decide)⟩)))

namespace Lexemes

variable {T : List Char → List Char → Prop} (H : Lexemes T) (n : Nat)

include H

theorem satisfy {p : Char → Bool} (hp : ∀ c, p c = true → isLexical c = true) :
    Follows 1 n T T (satisfy p) (satisfy p) :=
  .satisfy fun _ _ h => H.agree h hp

theorem run {p : Char → Bool} (hp : ∀ c, p c = true → isLexical c = true) :
    Follows 0 n T T (run p) (run p) :=
  .run fun _ _ h => H.agree h hp

theorem run1 {p : Char → Bool} (hp : ∀ c, p c = true → isLexical c = true) :
    Follows 1 n T T (run1 p) (run1 p) :=
  .run1 fun _ _ h => H.agree h hp

theorem char {c : Char} (hc : isLexical c = true) : Follows 1 n T T (char c) (char c) :=
  .char fun _ _ h => H.agree h fun c' hc' => by rw [beq_iff_eq.mp hc', hc]

theorem notNext {p : Char → Bool} (hp : ∀ c, p c = true → isLexical c = true) :
    Follows 0 n T T (notNext p) (notNext p) :=
  .notNext fun _ _ h => H.agree h hp

theorem name : Follows 1 n T T name name :=
  (H.satisfy n fun _ h => isLexical_of_isNamePart (isNamePart_of_isNameStart h)).andThen fun _ =>
    (H.run n fun _ => isLexical_of_isNamePart).bind fun _ => .pure _

theorem identifier : Follows 1 n T T identifier identifier := by
  refine (H.name n).andThen fun w => ?_
  split
  · exact .failure
  · exact .pure w

theorem numeral : Follows 1 n T T Number.Numeral.numeral Number.Numeral.numeral := by
  have hdigit (c : Char) (h : isDigit c = true) : isLexical c = true :=
    isLexical_of_isNamePart (isNamePart_of_isDigit h)
  have hhex (c : Char) (h : isHexDigit c = true) : isLexical c = true :=
    isLexical_of_isNamePart (isNamePart_of_isHexDigit h)
  have heither {a b : Char} (ha : isLexical a = true) (hb : isLexical b = true) (c : Char)
      (h : (c == a || c == b) = true) : isLexical c = true := by
    simp only [Bool.or_eq_true, beq_iff_eq] at h
    rcases h with rfl | rfl
    · exact ha
    · exact hb
  have hwhole : Follows 1 n T T Number.Numeral.wholeMantissa Number.Numeral.wholeMantissa :=
    (H.run1 n hdigit).andThen fun whole =>
      (Follows.maybe ((H.char n rfl).andThen fun _ => H.run n hdigit)).bind fun _ => .pure _
  have hpoint : Follows 1 n T T Number.Numeral.pointMantissa Number.Numeral.pointMantissa :=
    (H.char n rfl).andThen fun _ => (H.run1 n hdigit).bind fun fraction => .pure _
  have hexponent : Follows 1 n T T Number.Numeral.exponent Number.Numeral.exponent :=
    (H.satisfy n (heither rfl rfl)).andThen fun _ =>
      (H.satisfy n (heither rfl rfl)).maybe.bind fun sign =>
      (H.run1 n hdigit).bind fun ds => .pure _
  have hhexadecimal : Follows 1 n T T Number.Numeral.hexadecimal Number.Numeral.hexadecimal := by
    refine (H.char n rfl).andThen fun _ => (H.satisfy n (heither rfl rfl)).bind fun _ =>
      (H.run1 n hhex).bind fun ds => ?_
    split
    · exact .pure _
    · exact .failure
  have hdecimal : Follows 1 n T T Number.Numeral.decimal Number.Numeral.decimal :=
    (hwhole.orElse hpoint).andThen fun _ => hexponent.maybe.bind fun e => .pure _
  exact (hhexadecimal.orElse hdecimal).andThen fun x =>
    (H.notNext n fun _ => isLexical_of_isNamePart).bind fun _ => .pure x

end Lexemes

def Ends (k : List Char) : Prop := ∀ c r, k = c :: r → isLexical c = false

theorem lexemes_append {k : List Char} (hk : Ends k) : Lexemes fun s t => t = s ++ k := by
  constructor
  rintro s _ rfl p hp
  cases s with
  | nil =>
      refine .inr ⟨nofun, fun c r hr => ?_⟩
      rw [← Bool.not_eq_true]
      intro hc
      cases (hp c hc).symm.trans (hk c r hr)
  | cons c r =>
      cases hc : p c with
      | true => exact .inl ⟨c, r, r ++ k, hc, rfl, rfl, rfl⟩
      | false => exact .inr ⟨by rintro _ _ ⟨⟩; exact hc, by rintro _ _ ⟨⟩; exact hc⟩

theorem append_of_follows {α : Type} {j : Nat} {p : Scan α} {k s r : List Char} {a : α}
    (hp : Follows j (s.length + 1) (fun s t => t = s ++ k) (fun s t => t = s ++ k) p p)
    (h : p s = some (a, r)) : p (s ++ k) = some (a, r ++ k) := by
  rcases hp s _ (Nat.lt_succ_self _) rfl with ⟨hfail, -⟩ | ⟨a', u, u', hu, hu', rfl, -⟩
  · cases hfail.symm.trans h
  · cases hu.symm.trans h
    exact hu'

variable {k s r : List Char} (hk : Ends k)

include hk

theorem identifier_append {w : String} (h : identifier s = some (w, r)) :
    identifier (s ++ k) = some (w, r ++ k) :=
  append_of_follows ((lexemes_append hk).identifier _) h

theorem numeral_append {x : Float} (h : Number.Numeral.numeral s = some (x, r)) :
    Number.Numeral.numeral (s ++ k) = some (x, r ++ k) :=
  append_of_follows ((lexemes_append hk).numeral _) h

end SmallScript.Lexical
