import SmallScript.Proofs.Grammar.First
import SmallScript.Proofs.Lexical.Word

namespace SmallScript.Grammar

open Lexical Scan

/-- The words of statements that hold a statement. `else` only stands behind one. -/
def nestingWords : List String := ["if", "else", "while", "do", "for"]

def endedWords : List String := ["var", "let", "const", "break", "continue", "return", "throw"]

variable {g : Rules} {s r : List Char} {v w : String}

theorem keyword_of_ne (h : name s = some (w, r)) (hv : isWord v = true) (hne : v ≠ w) :
    keyword v s = none := by
  rw [Option.eq_none_iff_forall_ne_some]
  intro x hx
  rw [keyword_eq_some_iff hv, h] at hx
  cases hx
  exact hne rfl

theorem fails_of_name {α : Type} {F : Char → Bool} {p : Scan α} (hp : First F p)
    (h : name s = some (w, r)) (hF : ∀ c, w.toList.head? = some c → F c = false) :
    p s = none := by
  obtain ⟨rfl, hw, -⟩ := name_eq_some_iff.mp h
  refine hp.fails fun c u hc => hF c ?_
  cases hlist : w.toList with
  | nil =>
      rw [isWord, hlist] at hw
      cases hw
  | cons d cs =>
      rw [hlist] at hc
      cases hc
      rfl

theorem stmt_skipGap (s : List Char) : stmt g (skipGap s) = stmt g s := by
  have hskip : gap (skipGap s) = gap s := congrArg (fun r => some ((), r)) (skip_skip s)
  rw [stmt, bind_apply, bind_apply, hskip]

theorem terminated_of_none (hwords : ∀ v ∈ endedWords, keyword v s = none)
    (hexpr : expr g s = none) : terminated g s = none := by
  have hdeclaration : declaration g s = none := by
    refine bind_of_none ?_
    rw [declKind, orElse_of_none (bind_of_none (hwords _ (by decide))),
      orElse_of_none (bind_of_none (hwords _ (by decide)))]
    exact bind_of_none (hwords _ (by decide))
  have hjump : jump g s = none := by
    rw [jump, orElse_of_none (bind_of_none (hwords _ (by decide))),
      orElse_of_none (bind_of_none (hwords _ (by decide))),
      orElse_of_none (bind_of_none (hwords _ (by decide)))]
    exact bind_of_none (hwords _ (by decide))
  refine bind_of_none ?_
  rw [orElse_of_none hdeclaration, orElse_of_none hjump]
  exact map_of_none hexpr

section

variable (h : name s = some (w, r)) (hw : w ∈ nestingWords)

include h hw

theorem nesting_first {α : Type} {F : Char → Bool} {p : Scan α} (hp : First F p)
    (hF : ['i', 'e', 'w', 'd', 'f'].any F = false) : p s = none := by
  refine fails_of_name hp h fun c hc => Bool.eq_false_iff.mpr (List.any_eq_false.mp hF c ?_)
  have hfront : ∀ w ∈ nestingWords, w.toList.head? ∈ ['i', 'e', 'w', 'd', 'f'].map some := by decide
  have hmem := hfront w hw
  rw [hc, List.mem_map] at hmem
  obtain ⟨d, hd, hdc⟩ := hmem
  cases hdc
  exact hd

theorem nesting_keyword (hv : v ∉ nestingWords) (hword : isWord v = true) : keyword v s = none :=
  keyword_of_ne h hword fun hvw => hv (hvw ▸ hw)

theorem primary_nesting : primary g s = none := by
  have hfunction : functionDef g s = none := bind_of_none (nesting_keyword h hw (by decide) rfl)
  have hconstant : constant s = none := by
    have hnumeral := nesting_first h hw Number.Numeral.numeral_first rfl
    rw [constant, orElse_of_none (map_of_none hnumeral),
      orElse_of_none (bind_of_none (nesting_keyword h hw (by decide) rfl)),
      orElse_of_none (bind_of_none (nesting_keyword h hw (by decide) rfl))]
    exact bind_of_none (nesting_keyword h hw (by decide) rfl)
  have hidentifier : identifier s = none := by
    have hreserved : ∀ w ∈ nestingWords, w ∈ reservedWords := by decide
    rw [Option.eq_none_iff_forall_ne_some]
    intro x hx
    obtain ⟨hname, hfree⟩ := identifier_eq_some_iff.mp hx
    cases h.symm.trans hname
    exact hfree (hreserved _ hw)
  rw [primary, orElse_of_none (map_of_none hfunction),
    orElse_of_none (map_of_none (nesting_first h hw (arrayItems_first g) rfl)),
    orElse_of_none (map_of_none (nesting_first h hw (objectProperties_first g) rfl)),
    orElse_of_none (map_of_none (nesting_first h hw (parenthesised_first g) rfl)),
    orElse_of_none hconstant,
    orElse_of_none (map_of_none (nesting_first h hw quoted_first rfl))]
  exact map_of_none hidentifier

theorem expr_nesting (hs : skipGap s = s) : expr g s = none := by
  have hleading : leading s = none := nesting_first h hw leading_first rfl
  have hcall : callExpr g s = none := by
    refine bind_of_none ?_
    rw [orElse_of_none (nesting_first h hw (newExpr_first g) rfl)]
    exact primary_nesting h hw
  have hunary : unaryExpr g s = none := by
    rw [unaryExpr, bind_of_some (many_of_none (bind_of_none hleading))]
    exact bind_of_none (bind_of_none hcall)
  have hlevels (ls : List (List Infix)) {p : Scan Expr} (hp : p s = none) :
      ls.foldl binaryLevel p s = none := by
    induction ls generalizing p with
    | nil => exact hp
    | cons l ls ih => exact ih (bind_of_none hp)
  have hgap : gap s = some ((), s) := congrArg (fun r => some ((), r)) hs
  rw [expr, bind_of_some hgap]
  exact bind_of_none (bind_of_none (hlevels levels hunary))

theorem terminated_nesting (hs : skipGap s = s) : terminated g s = none := by
  refine terminated_of_none (fun v hv => nesting_keyword h hw ?_ ?_) (expr_nesting h hw hs)
  · have hfree : ∀ v ∈ endedWords, v ∉ nestingWords := by decide
    exact hfree v hv
  · have hwords : ∀ v ∈ endedWords, isWord v = true := by decide
    exact hwords v hv

theorem stmt_nesting (hs : skipGap s = s) : stmt g s =
    ((((ifStmt g s).or (whileStmt g s)).or (doStmt g s)).or (forStmt g s)) := by
  have hgap : gap s = some ((), s) := congrArg (fun r => some ((), r)) hs
  have hfunction : functionDecl g s = none :=
    bind_of_none (bind_of_none (nesting_keyword h hw (by decide) rfl))
  have htry : tryStmt g s = none := bind_of_none (nesting_keyword h hw (by decide) rfl)
  have hempty := nesting_first h hw (First.char ';') rfl
  have hblock := nesting_first h hw (block_first g) rfl
  rw [stmt, bind_of_some hgap, orElse_of_none (bind_of_none hempty), orElse_apply, orElse_apply,
    hfunction, terminated_nesting h hw hs, Option.or_none, Option.or_none, compound,
    orElse_of_none (map_of_none hblock)]
  simp only [orElse_apply, htry, Option.or_none, Option.or_assoc]

end

section

variable {u : Unit} (hs : skipGap s = s)

include hs

theorem stmt_if (h : keyword "if" s = some (u, r)) : stmt g s = ifStmt g s := by
  have hname := (keyword_eq_some_iff rfl).mp h
  have hwhile : whileStmt g s = none := bind_of_none (keyword_of_ne hname rfl (by decide))
  have hdo : doStmt g s = none := bind_of_none (keyword_of_ne hname rfl (by decide))
  have hfor : forStmt g s = none := bind_of_none (keyword_of_ne hname rfl (by decide))
  rw [stmt_nesting hname (by decide) hs, hwhile, hdo, hfor]
  simp only [Option.or_none]

theorem stmt_while (h : keyword "while" s = some (u, r)) : stmt g s = whileStmt g s := by
  have hname := (keyword_eq_some_iff rfl).mp h
  have hif : ifStmt g s = none := bind_of_none (keyword_of_ne hname rfl (by decide))
  have hdo : doStmt g s = none := bind_of_none (keyword_of_ne hname rfl (by decide))
  have hfor : forStmt g s = none := bind_of_none (keyword_of_ne hname rfl (by decide))
  rw [stmt_nesting hname (by decide) hs, hif, hdo, hfor]
  simp only [Option.or_none, Option.none_or]

theorem stmt_do (h : keyword "do" s = some (u, r)) : stmt g s = doStmt g s := by
  have hname := (keyword_eq_some_iff rfl).mp h
  have hif : ifStmt g s = none := bind_of_none (keyword_of_ne hname rfl (by decide))
  have hwhile : whileStmt g s = none := bind_of_none (keyword_of_ne hname rfl (by decide))
  have hfor : forStmt g s = none := bind_of_none (keyword_of_ne hname rfl (by decide))
  rw [stmt_nesting hname (by decide) hs, hif, hwhile, hfor]
  simp only [Option.or_none, Option.none_or]

theorem stmt_for (h : keyword "for" s = some (u, r)) : stmt g s = forStmt g s := by
  have hname := (keyword_eq_some_iff rfl).mp h
  have hif : ifStmt g s = none := bind_of_none (keyword_of_ne hname rfl (by decide))
  have hwhile : whileStmt g s = none := bind_of_none (keyword_of_ne hname rfl (by decide))
  have hdo : doStmt g s = none := bind_of_none (keyword_of_ne hname rfl (by decide))
  rw [stmt_nesting hname (by decide) hs, hif, hwhile, hdo]
  simp only [Option.or_none, Option.none_or]

theorem stmt_flat (hif : keyword "if" s = none) (hwhile : keyword "while" s = none)
    (hdo : keyword "do" s = none) (hfor : keyword "for" s = none) : stmt g s =
      ((do char ';'; return Stmt.empty) <|> (Stmt.block <$> block g <|> tryStmt g) <|>
        functionDecl g <|> terminated g : Scan Stmt) s := by
  have hgap : gap s = some ((), s) := congrArg (fun r => some ((), r)) hs
  have hifStmt : ifStmt g s = none := bind_of_none hif
  have hwhileStmt : whileStmt g s = none := bind_of_none hwhile
  have hdoStmt : doStmt g s = none := bind_of_none hdo
  have hforStmt : forStmt g s = none := bind_of_none hfor
  rw [stmt, bind_of_some hgap]
  simp only [orElse_apply, compound, hifStmt, hwhileStmt, hdoStmt, hforStmt, Option.none_or]

theorem stmt_else (h : keyword "else" s = some (u, r)) : stmt g s = none := by
  have hname := (keyword_eq_some_iff rfl).mp h
  have hif : ifStmt g s = none := bind_of_none (keyword_of_ne hname rfl (by decide))
  have hwhile : whileStmt g s = none := bind_of_none (keyword_of_ne hname rfl (by decide))
  have hdo : doStmt g s = none := bind_of_none (keyword_of_ne hname rfl (by decide))
  have hfor : forStmt g s = none := bind_of_none (keyword_of_ne hname rfl (by decide))
  rw [stmt_nesting hname (by decide) hs, hif, hwhile, hdo, hfor]
  rfl

end

theorem stmt_question (h : skipGap s = '?' :: r) : stmt g s = none := by
  have hs : skipGap ('?' :: r) = '?' :: r := h ▸ skip_skip s
  have hgap : gap ('?' :: r) = some ((), '?' :: r) := congrArg (fun r => some ((), r)) hs
  have hwords (v : String) (hv : isWord v = true) : keyword v ('?' :: r) = none := by
    rw [Option.eq_none_iff_forall_ne_some]
    intro x hx
    cases (name_first.cons rfl).symm.trans ((keyword_eq_some_iff hv).mp hx)
  have hexpr : expr g ('?' :: r) = none := by
    rw [expr, bind_of_some hgap]
    exact (assignment_first g).cons rfl
  have hended : ∀ v ∈ endedWords, isWord v = true := by decide
  rw [← stmt_skipGap, h, stmt_flat hs (hwords _ rfl) (hwords _ rfl) (hwords _ rfl) (hwords _ rfl),
    orElse_of_none (bind_of_none ((First.char ';').cons rfl)), orElse_apply, orElse_apply,
    orElse_apply, map_of_none ((block_first g).cons rfl), Option.none_or]
  have htry : tryStmt g ('?' :: r) = none := bind_of_none (hwords _ rfl)
  have hfunction : functionDecl g ('?' :: r) = none := bind_of_none (bind_of_none (hwords _ rfl))
  rw [htry, hfunction, terminated_of_none (fun v hv => hwords v (hended v hv)) hexpr]
  rfl

end SmallScript.Grammar
