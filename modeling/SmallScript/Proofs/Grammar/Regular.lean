import SmallScript.Proofs.Grammar.Shape
import SmallScript.Proofs.Lexical.Magnitude
import Mathlib

namespace SmallScript

open Lexical

def IsName (x : String) : Prop :=
  (∃ c cs, x.toList = c :: cs ∧ (c.isAlpha = true ∨ c = '_' ∨ c = '$') ∧
    ∀ d ∈ cs, d.isAlphanum = true ∨ d = '_' ∨ d = '$') ∧ x ∉ reservedWords

namespace Expr

/-- How loose an expression is: primary expressions and those in parentheses, members and calls,
steps behind an operand, prefixes, binary operators from `*` to `||`, conditionals, assignments. -/
def level : Expr → Nat
  | field _ _ | index _ _ | call _ _ | new _ _ => 1
  | update op _ => if op.isPostfix then 2 else 3
  | unary _ _ => 3
  | binary op _ _ => 14 - op.binding
  | cond _ _ _ => 14
  | assign _ _ _ => 15
  | _ => 0

/-- There is a call in the expression that no parentheses, no brackets of any kind and no arguments
of a `new` stand around. -/
def exposesCall : Expr → Bool
  | call _ _ => true
  | field e _ | index e _ | new e _ | unary _ e | update _ e => e.exposesCall
  | binary _ l r | assign _ l r => l.exposesCall || r.exposesCall
  | cond c t f => c.exposesCall || t.exposesCall || f.exposesCall
  | _ => false

end Expr

def Function.Regular (f : Function) : Prop := (∀ x ∈ f.name, IsName x) ∧ ∀ x ∈ f.params, IsName x

def Expr.Regular : Expr → Prop
  | ident x => IsName x
  | number x => Number.IsMagnitude x
  | function f => f.Regular
  | field e _ | index e _ | call e _ => e.level ≤ 1
  | new e _ => e.level ≤ 1 ∧ e.exposesCall = false
  | unary _ e => e.level ≤ 3
  | update op e => if op.isPostfix then e.level ≤ 1 else e.level ≤ 3
  | binary op l r => l.level ≤ 14 - op.binding ∧ r.level < 14 - op.binding
  | cond c _ _ => c.level < 14
  | assign _ l _ => l.level < 14
  | _ => True

def Stmt.Regular : Stmt → Prop
  | decl _ ds => ds ≠ [] ∧ ∀ d ∈ ds, IsName d.1
  | function f => f.name.isSome = true ∧ f.Regular
  | forLoop init _ _ _ => ∀ t ∈ init, (∃ kind ds, t = decl kind ds) ∨ ∃ e, t = expr e
  | tryCatch _ handler finalizer => (handler.isSome = true ∨ finalizer.isSome = true) ∧
      ∀ c ∈ handler, IsName c.1
  | _ => True

def Everywhere.regular : Everywhere := ⟨Expr.Regular, Stmt.Regular, fun _ => True⟩

theorem isAlpha_of_isLetter {c : Char} (h : isLetter c = true) : c.isAlpha = true := by
  simp only [isLetter, Char.le_def, Bool.or_eq_true, decide_eq_true_eq] at h
  simp only [Char.isAlpha, Char.isUpper, Char.isLower, Bool.or_eq_true, Bool.and_eq_true,
    decide_eq_true_eq]
  exact h.symm

theorem isDigit_of_isDigit {c : Char} (h : isDigit c = true) : c.isDigit = true := by
  simpa [isDigit, Char.isDigit, Char.le_def] using h

theorem start_of_isNameStart {c : Char} (h : isNameStart c = true) :
    c.isAlpha = true ∨ c = '_' ∨ c = '$' := by
  simp only [isNameStart, Bool.or_eq_true, beq_iff_eq, or_assoc] at h
  exact h.imp_left isAlpha_of_isLetter

theorem part_of_isNamePart {c : Char} (h : isNamePart c = true) :
    c.isAlphanum = true ∨ c = '_' ∨ c = '$' := by
  rw [isNamePart, Bool.or_eq_true] at h
  rw [Char.isAlphanum, Bool.or_eq_true]
  obtain h | h := h
  · exact (start_of_isNameStart h).imp_left .inl
  · exact .inl (.inr (isDigit_of_isDigit h))

theorem IsIdentifier.isName {x : String} (h : IsIdentifier x) : IsName x := by
  obtain ⟨hname, hreserved⟩ := identifier_eq_some_iff.mp h
  have hword := (name_eq_some_iff.mp hname).2.1
  refine ⟨?_, hreserved⟩
  rw [isWord] at hword
  cases hx : x.toList with
  | nil => simp [hx] at hword
  | cons c cs =>
      rw [hx, Bool.and_eq_true, List.all_eq_true] at hword
      exact ⟨c, cs, rfl, start_of_isNameStart hword.1,
        fun d hd => part_of_isNamePart (hword.2 d hd)⟩

theorem Function.Shaped.regular {f : Function} (h : f.Shaped) : f.Regular :=
  ⟨fun x hx => (h.1 x hx).isName, fun x hx => (h.2 x hx).isName⟩

namespace Expr

variable {e : Expr}

theorem level_le_of_rank_le_two (h : e.rank ≤ 2) :
    e.level ≤ 3 ∧ (e.rank = 0 → e.level ≤ 1) := by
  cases e with
  | update op e => by_cases hop : op.isPostfix = true <;> simp [level, rank, hop]
  | binary | cond | assign => simp [rank] at h
  | _ => simp [level, rank]

theorem level_of_rank_le_three (h : e.rank ≤ 3) :
    e.level ≤ 3 ∨ ∃ o ∈ e.root?, e.level = 14 - o.binding := by
  by_cases hrank : e.rank ≤ 2
  · exact .inl (level_le_of_rank_le_two hrank).1
  · cases e with
    | binary op l r => exact .inr ⟨op, rfl, rfl⟩
    | update op e => by_cases hop : op.isPostfix = true <;> simp [rank, hop] at hrank
    | cond | assign => simp [rank] at h
    | _ => simp [rank] at hrank

theorem binding_bounds (op : BinaryOp) : 1 ≤ op.binding ∧ op.binding ≤ 10 := by
  cases op <;> decide

theorem level_lt_of_rank_le_three (h : e.rank ≤ 3) : e.level < 14 := by
  obtain h | ⟨o, -, h⟩ := level_of_rank_le_three h
  · omega
  · have := binding_bounds o
    omega

theorem level_le_one_of_isMember (h : e.isMember = true ∨ e.isNew = true) : e.level ≤ 1 := by
  cases e <;> simp_all [isMember, isNew, level]

theorem exposesCall_eq_false : (e : Expr) → e.Every .shape → e.isMember = true ∨ e.isNew = true →
    e.exposesCall = false
  | .field e _, h, hm => e.exposesCall_eq_false h.2 (.inl (hm.resolve_right Bool.false_ne_true))
  | .index e _, h, hm => e.exposesCall_eq_false h.2.1 (.inl (hm.resolve_right Bool.false_ne_true))
  | .new e _, h, _ => e.exposesCall_eq_false h.2.1 h.1
  | .call _ _, _, hm | .update _ _, _, hm | .unary _ _, _, hm | .binary _ _ _, _, hm
  | .cond _ _ _, _, hm | .assign _ _ _, _, hm => by simp [isMember, isNew] at hm
  | .ident _, _, _ | .number _, _, _ | .bool _, _, _ | .null, _, _ | .string _, _, _
  | .paren _, _, _ | .array _, _, _ | .object _, _, _ | .function _, _, _ => rfl

theorem Every.regular {e : Expr} (h : e.Every .shape) : e.Regular := by
  have hshape : e.Shaped := h.here
  cases e with
  | ident x => exact hshape.isName
  | number x => exact hshape.isMagnitude
  | function f => exact hshape.regular
  | field e x => exact (level_le_of_rank_le_two (hshape.1.trans_le (Nat.zero_le 2))).2 hshape.1
  | index e k => exact (level_le_of_rank_le_two (hshape.trans_le (Nat.zero_le 2))).2 hshape
  | call e args => exact (level_le_of_rank_le_two (hshape.trans_le (Nat.zero_le 2))).2 hshape
  | new e args => exact ⟨level_le_one_of_isMember hshape, e.exposesCall_eq_false h.2.1 hshape⟩
  | unary op e => exact (level_le_of_rank_le_two hshape).1
  | update op e =>
      rw [Shaped] at hshape
      rw [Regular]
      split_ifs at hshape ⊢
      · exact (level_le_of_rank_le_two (hshape.trans_le (Nat.zero_le 2))).2 hshape
      · exact (level_le_of_rank_le_two hshape).1
  | binary op l r =>
      obtain ⟨⟨hl, hleft⟩, hr, hright⟩ := hshape
      have hop := binding_bounds op
      constructor
      · obtain h | ⟨o, ho, h⟩ := level_of_rank_le_three hl
        · omega
        · have := hleft o ho
          omega
      · obtain h | ⟨o, ho, h⟩ := level_of_rank_le_three hr
        · omega
        · have := hright o ho
          have := binding_bounds o
          omega
  | cond c t f => exact level_lt_of_rank_le_three hshape
  | assign op l r => exact level_lt_of_rank_le_three hshape
  | _ => trivial

end Expr

theorem Stmt.Shaped.regular {t : Stmt} (h : t.Shaped) : t.Regular := by
  cases t with
  | decl kind ds => exact ⟨h.1, fun d hd => (h.2 d hd).isName⟩
  | function f => exact ⟨h.1, h.2.regular⟩
  | forLoop init test update body =>
      intro t ht
      have hinit := h t ht
      cases t with
      | decl kind ds => exact .inl ⟨kind, ds, rfl⟩
      | expr e => exact .inr ⟨e, rfl⟩
      | _ => cases hinit
  | tryCatch body handler finalizer => exact ⟨h.1, fun c hc => (h.2 c hc).isName⟩
  | _ => trivial

theorem regular_of_shape : Everywhere.shape.Implies .regular where
  expr _ h := h.regular
  stmt _ h := h.here.regular
  lone _ _ := trivial

/-- Every tree that is read is regular at every depth. -/
theorem Program.regular_of_parse {source : String} {t : Program} (h : parse source = .ok t) :
    everyStmt .regular t :=
  everyStmt_imp regular_of_shape t (shape_of_parse h)

/-- The call is in the parentheses of the inner `new`. -/
theorem Program.regular_of_parse_new : ∃ t, parse "new new A(b()).c" = .ok t ∧
    everyStmt .regular t := by
  have h : ∃ t, parse "new new A(b()).c" = .ok t := ⟨_, by cbv⟩
  obtain ⟨t, ht⟩ := h
  exact ⟨t, ht, regular_of_parse ht⟩

end SmallScript
