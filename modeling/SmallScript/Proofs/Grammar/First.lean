import SmallScript.Grammar.Statement
import SmallScript.Proofs.Lexical.Comment
import SmallScript.Proofs.Repetition

namespace SmallScript.Lexical

open Scan

theorem name_first : First isNameStart name := .bind .satisfy

theorem identifier_first : First isNameStart identifier := name_first.bind

theorem keyword_first {w : String} {c : Char} {cs : List Char} (hw : w.toList = c :: cs) :
    First (· == c) (keyword w) :=
  .bind (.text hw)

theorem quotedBy_first (q : Char) : First (· == q) (quotedBy q) := .bind (.char q)

theorem quoted_first : First isQuote quoted :=
  .imp (.orElse (quotedBy_first '"') (quotedBy_first '\'')) fun _ h => h

end SmallScript.Lexical

namespace SmallScript.Number.Numeral

open Lexical Scan

theorem numeral_first : First (fun c => isDigit c || c == '.') numeral := by
  refine .bind (.imp (.orElse (.bind (.char '0')) (.bind (.orElse (.bind .run1) (.bind (.char '.')))))
    fun c h => ?_)
  simp only [Bool.or_eq_true, beq_iff_eq] at h ⊢
  rcases h with rfl | h | h
  · exact .inl rfl
  · exact .inl h
  · exact .inr h

end SmallScript.Number.Numeral

namespace SmallScript.Grammar

open Lexical Scan

variable (g : Rules)

theorem functionDef_first : First (· == 'f') (functionDef g) := .bind (keyword_first rfl)

theorem arrayItems_first : First (· == '[') (arrayItems g) := .bind (.char _)

theorem objectProperties_first : First (· == '\x7b') (objectProperties g) := .bind (.char _)

theorem parenthesised_first : First (· == '(') (parenthesised g) := .bind (.char _)

theorem arguments_first : First (· == '(') (arguments g) := .bind (.char _)

theorem memberSuffix_first : First (fun c => c == '.' || c == '[') (memberSuffix g) :=
  .orElse (.bind (.char _)) (.bind (.char _))

theorem callSuffix_first : First (fun c => c == '(' || (c == '.' || c == '[')) (callSuffix g) :=
  .orElse (.map (arguments_first g)) (memberSuffix_first g)

theorem block_first : First (· == '\x7b') (block g) := .bind (.char _)

theorem leading_first :
    First (fun c => c == '+' || c == '-' || c == 't' || c == '~' || c == '!') leading := by
  refine .imp (.orElse (.bind (.text (c := '+') rfl)) <| .orElse (.bind (.text (c := '-') rfl)) <|
    .orElse (.bind (keyword_first (c := 't') rfl)) <| .orElse (.bind (.char '~')) <|
    .orElse (.bind (.char '!')) <| .orElse (.bind (.char '-')) (.bind (.char '+'))) fun c h => ?_
  simp only [Bool.or_eq_true, beq_iff_eq] at h ⊢
  rcases h with h | h | h | h | h | h | h <;> simp [h]

def isExprFront (c : Char) : Bool :=
  isNameStart c || (isDigit c || c == '.') || isQuote c ||
    ['(', '[', '\x7b', '+', '-', '~', '!'].contains c

theorem char_exprFront {α : Type} {p : Scan α} {c : Char} (hp : First (· == c) p)
    (hc : isExprFront c = true) : First isExprFront p :=
  hp.imp fun d hd => by rw [beq_iff_eq.mp hd, hc]

theorem primary_first : First isExprFront (primary g) := by
  refine .or (.map (char_exprFront (functionDef_first g) rfl)) <|
    .or (.map (char_exprFront (arrayItems_first g) rfl)) <|
    .or (.map (char_exprFront (objectProperties_first g) rfl)) <|
    .or (.map (char_exprFront (parenthesised_first g) rfl)) <| .or ?_ <| .or (.map ?_) (.map ?_)
  · refine .or (.map (Number.Numeral.numeral_first.imp fun c h => ?_)) <|
      .or (.bind (char_exprFront (keyword_first rfl) rfl)) <|
      .or (.bind (char_exprFront (keyword_first rfl) rfl)) <|
      .bind (char_exprFront (keyword_first rfl) rfl)
    rw [isExprFront, h, Bool.or_true, Bool.true_or, Bool.true_or]
  · exact quoted_first.imp fun c h => by rw [isExprFront, h, Bool.or_true, Bool.true_or]
  · exact identifier_first.imp fun c h => by
      rw [isExprFront, h, Bool.true_or, Bool.true_or, Bool.true_or]

theorem newExpr_first : First (· == 'n') (newExpr g) := .bind (keyword_first rfl)

theorem postfixExpr_first : First isExprFront (postfixExpr g) :=
  .bind (.bind (.or (char_exprFront (newExpr_first g) rfl) (primary_first g)))

theorem unaryExpr_first : First isExprFront (unaryExpr g) := by
  refine ⟨fun {s} hs => ?_⟩
  have hleading : leading s = none := by
    refine (leading_first.imp fun c h => ?_).fails hs
    simp only [Bool.or_eq_true, beq_iff_eq] at h
    rcases h with (((rfl | rfl) | rfl) | rfl) | rfl <;> rfl
  rw [unaryExpr, bind_of_some (many_of_none (bind_of_none hleading))]
  exact bind_of_none ((postfixExpr_first g).fails hs)

theorem assignment_first : First isExprFront (assignment g) := by
  have hlevels (ls : List (List Infix)) {p : Scan Expr} (hp : First isExprFront p) :
      First isExprFront (ls.foldl binaryLevel p) := by
    induction ls generalizing p with
    | nil => exact hp
    | cons l ls ih => exact ih hp.bind
  exact .bind (.bind (hlevels levels (unaryExpr_first g)))

theorem operatorOf_first (level : List Infix) :
    First (fun c => level.any fun i => i.op.symbol.toList.head? == some c) (operatorOf level) := by
  induction level with
  | nil => exact .failure
  | cons i level ih =>
      refine .imp (.orElse (.bind (F := fun c => i.op.symbol.toList.head? == some c) ?_) ih)
        fun c h => by rw [List.any_cons, h]
      rw [text]
      cases hsymbol : i.op.symbol.toList with
      | nil => cases hop : i.op <;> rw [hop] at hsymbol <;> cases hsymbol
      | cons d w =>
          rw [chars_cons]
          refine .bind ((First.char d).imp fun c h => ?_)
          rw [beq_iff_eq] at h ⊢
          exact congrArg some h.symm

end SmallScript.Grammar
