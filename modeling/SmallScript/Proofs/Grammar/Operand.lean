import SmallScript.Proofs.Grammar.Bracket
import SmallScript.Proofs.Grammar.Chain
import SmallScript.Proofs.Lexical.Word

namespace SmallScript

namespace Grammar

open Lexical Scan

/-- The text is one operand, of that value. -/
inductive Reads : List Char → Expr → Prop where
  | ident {s : List Char} {w : String} (h : identifier s = some (w, [])) : Reads s (.ident w)
  | number {s : List Char} {x : Float} (h : Number.Numeral.numeral s = some (x, [])) :
      Reads s (.number x)
  | string {s : List Char} {v : String} (h : quoted s = some (v, [])) : Reads s (.string v)
  | paren {s : List Char} {e : Expr} (h : parenthesised grammar s = some (e, [])) :
      Reads s (.paren e)

structure Operand where
  text : List Char
  value : Expr
  reads : Reads text value

def isFront (c : Char) : Bool :=
  isNameStart c || (isDigit c || c == '.') || isQuote c || c == '('

theorem Reads.front {s : List Char} {e : Expr} (h : Reads s e) :
    ∃ c r, s = c :: r ∧ isFront c = true := by
  cases h with
  | ident h =>
      obtain ⟨c, r, rfl, hc⟩ := identifier_first.front h
      exact ⟨c, r, rfl, by rw [isFront, hc, Bool.true_or, Bool.true_or, Bool.true_or]⟩
  | number h =>
      obtain ⟨c, r, rfl, hc⟩ := Number.Numeral.numeral_first.front h
      exact ⟨c, r, rfl, by rw [isFront, hc, Bool.or_true, Bool.true_or, Bool.true_or]⟩
  | string h =>
      obtain ⟨c, r, rfl, hc⟩ := quoted_first.front h
      exact ⟨c, r, rfl, by rw [isFront, hc, Bool.or_true, Bool.true_or]⟩
  | paren h =>
      obtain ⟨c, r, rfl, hc⟩ := (parenthesised_first grammar).front h
      exact ⟨c, r, rfl, by rw [isFront, hc, Bool.or_true]⟩

theorem quoted_append {s : List Char} {v : String} (h : quoted s = some (v, [])) (k : List Char) :
    quoted (s ++ k) = some (v, k) := by
  rw [quoted, orElse_apply] at h ⊢
  cases hs : quotedBy '"' s with
  | some x =>
      rw [hs] at h
      cases h
      rw [quotedBy_append (.inl rfl) hs, Option.some_or]
  | none =>
      rw [hs, Option.none_or] at h
      obtain ⟨c, r, rfl, hc⟩ := (quotedBy_first '\'').front h
      rw [beq_iff_eq] at hc
      subst hc
      rw [List.cons_append, (quotedBy_first '"').cons rfl, Option.none_or]
      exact quotedBy_append (.inr rfl) h k

theorem isNameStart_of_isDigit {c : Char} (h : isDigit c = true) : isNameStart c = false := by
  rw [isDigit, decide_eq_true_eq] at h
  rw [← Bool.not_eq_true]
  intro hc
  simp only [isNameStart, isLetter, Bool.or_eq_true, decide_eq_true_eq, beq_iff_eq] at hc
  rcases hc with ((hc | hc) | rfl) | rfl
  · exact absurd (Char.le_trans hc.1 h.2) (by decide)
  · exact absurd (Char.le_trans hc.1 h.2) (by decide)
  · exact absurd h.2 (by decide)
  · exact absurd h.1 (by decide)

theorem beq_eq_false_of_class {F : Char → Bool} {c d : Char} (hc : F c = true) (hd : F d = false) :
    (c == d) = false := by
  rw [beq_eq_false_iff_ne]
  rintro rfl
  exact Bool.false_ne_true (hd.symm.trans hc)

variable {o k : List Char} {e : Expr}

theorem Reads.unreserved (h : Reads o e) (hk : Ends k) : Unreserved (o ++ k) := by
  have hother {F : Char → Bool} (hF : ∀ c, F c = true → isNameStart c = false)
      (hfront : ∃ c r, o = c :: r ∧ F c = true) : Unreserved (o ++ k) := by
    obtain ⟨c, r, rfl, hc⟩ := hfront
    refine unreserved_of_front ?_
    rintro _ _ ⟨⟩
    exact hF c hc
  cases h with
  | ident h =>
      have hname := identifier_eq_some_iff.mp (identifier_append hk h)
      exact unreserved_of_name hname.1 hname.2
  | number h =>
      refine hother (fun c hc => ?_) (Number.Numeral.numeral_first.front h)
      rw [Bool.or_eq_true, beq_iff_eq] at hc
      rcases hc with hc | rfl
      · exact isNameStart_of_isDigit hc
      · rfl
  | string h =>
      refine hother (fun c hc => ?_) (quoted_first.front h)
      rcases isQuote_iff.mp hc with rfl | rfl <;> rfl
  | paren h =>
      refine hother (fun c hc => ?_) ((parenthesised_first grammar).front h)
      rw [beq_iff_eq] at hc
      rw [hc]
      rfl

theorem Reads.primary (h : Reads o e) (hk : Ends k) :
    primary grammar (o ++ k) = some (e, k) := by
  have hreserved := h.unreserved hk
  have hfunction : functionDef grammar (o ++ k) = none := bind_of_none (hreserved _ (by decide))
  obtain ⟨c, r, ho, hfront⟩ := h.front
  have harray : arrayItems grammar (o ++ k) = none := by
    rw [ho]
    exact (arrayItems_first grammar).cons (beq_eq_false_of_class hfront rfl)
  have hobject : objectProperties grammar (o ++ k) = none := by
    rw [ho]
    exact (objectProperties_first grammar).cons (beq_eq_false_of_class hfront rfl)
  have hwords : (do keyword "true"; return Expr.bool true : Scan Expr) (o ++ k) = none ∧
      (do keyword "false"; return Expr.bool false : Scan Expr) (o ++ k) = none ∧
      (do keyword "null"; return Expr.null : Scan Expr) (o ++ k) = none :=
    ⟨bind_of_none (hreserved _ (by decide)), bind_of_none (hreserved _ (by decide)),
      bind_of_none (hreserved _ (by decide))⟩
  rw [Grammar.primary, orElse_of_none (map_of_none hfunction), orElse_of_none (map_of_none harray),
    orElse_of_none (map_of_none hobject)]
  cases h with
  | paren h => exact orElse_of_some (map_of_some (parenthesised_append h k))
  | number h =>
      obtain ⟨c, r, rfl, hc⟩ := Number.Numeral.numeral_first.front h
      have hparen : parenthesised grammar (c :: r ++ k) = none := (parenthesised_first grammar).cons
        (beq_eq_false_of_class (F := fun c => isDigit c || c == '.') hc rfl)
      rw [orElse_of_none (map_of_none hparen), constant]
      exact orElse_of_some (orElse_of_some (map_of_some (numeral_append hk h)))
  | string h =>
      obtain ⟨c, r, rfl, hc⟩ := quoted_first.front h
      have hnumeral : Number.Numeral.numeral (c :: r ++ k) = none :=
        Number.Numeral.numeral_first.cons (by rcases isQuote_iff.mp hc with rfl | rfl <;> rfl)
      have hparen : parenthesised grammar (c :: r ++ k) = none :=
        (parenthesised_first grammar).cons (beq_eq_false_of_class hc rfl)
      rw [orElse_of_none (map_of_none hparen), constant, orElse_of_none]
      · exact orElse_of_some (map_of_some (quoted_append h k))
      · rw [orElse_of_none (map_of_none hnumeral), orElse_of_none hwords.1, orElse_of_none hwords.2.1,
          hwords.2.2]
  | ident h =>
      obtain ⟨c, r, rfl, hc⟩ := identifier_first.front h
      have hnumeral : Number.Numeral.numeral (c :: r ++ k) = none := by
        refine Number.Numeral.numeral_first.cons ?_
        rw [Bool.or_eq_false_iff]
        refine ⟨?_, beq_eq_false_of_class hc rfl⟩
        rw [← Bool.not_eq_true]
        intro hd
        exact Bool.false_ne_true ((isNameStart_of_isDigit hd).symm.trans hc)
      have hquoted : quoted (c :: r ++ k) = none := by
        refine quoted_first.cons ?_
        rw [isQuote, beq_eq_false_of_class hc rfl, beq_eq_false_of_class hc rfl]
        rfl
      have hparen : parenthesised grammar (c :: r ++ k) = none :=
        (parenthesised_first grammar).cons (beq_eq_false_of_class hc rfl)
      rw [orElse_of_none (map_of_none hparen), constant, orElse_of_none,
        orElse_of_none (map_of_none hquoted)]
      · exact map_of_some (identifier_append hk h)
      · rw [orElse_of_none (map_of_none hnumeral), orElse_of_none hwords.1, orElse_of_none hwords.2.1,
          hwords.2.2]

theorem Reads.root? {s : List Char} {e : Expr} (h : Reads s e) : e.root? = none := by
  cases h <;> rfl

theorem leading_none {s : List Char} (h : Unreserved s) (hs : ∀ c r, s = c :: r → isFront c = true) :
    leading s = none := by
  have hfirst {α : Type} {d : Char} {p : Scan α} (hp : First (· == d) p) (hd : isFront d = false) :
      p s = none :=
    hp.fails fun c r hr => beq_eq_false_of_class (hs c r hr) hd
  rw [leading, orElse_of_none (hfirst (.bind (.text (c := '+') rfl)) rfl),
    orElse_of_none (hfirst (.bind (.text (c := '-') rfl)) rfl),
    orElse_of_none (bind_of_none (h _ (by decide))),
    orElse_of_none (hfirst (.bind (.char '~')) rfl), orElse_of_none (hfirst (.bind (.char '!')) rfl),
    orElse_of_none (hfirst (.bind (.char '-')) rfl), hfirst (.bind (.char '+')) rfl]

theorem unaryExpr_operand (o : Operand) (hk : Stops k) :
    unaryExpr grammar (o.text ++ k) = some (o.value, k) := by
  have hreserved := o.reads.unreserved hk.ends
  have hleading : leading (o.text ++ k) = none := by
    refine leading_none hreserved ?_
    obtain ⟨c, r, ho, hc⟩ := o.reads.front
    rw [ho]
    rintro _ _ ⟨⟩
    exact hc
  have hnew : newExpr grammar (o.text ++ k) = none := bind_of_none (hreserved _ (by decide))
  have hcall : callExpr grammar (o.text ++ k) = some (o.value, k) := by
    rw [callExpr, bind_of_some ((orElse_of_none hnew).trans (o.reads.primary hk.ends)),
      bind_of_some (many_of_none hk.suffix)]
    rfl
  have hpostfix : postfixExpr grammar (o.text ++ k) = some (o.value, k) := by
    rw [postfixExpr, bind_of_some hcall, bind_of_some (maybe_of_none hk.step)]
    rfl
  rw [unaryExpr, bind_of_some (many_of_none (bind_of_none hleading)), bind_of_some hpostfix]
  rfl

theorem skipGap_operand (o : Operand) (r : List Char) : skipGap (o.text ++ r) = o.text ++ r := by
  obtain ⟨c, u, ho, hc⟩ := o.reads.front
  rw [ho]
  refine skip_stop ?_ (fun _ hd => ?_) fun _ hd => ?_
  · rw [← Bool.not_eq_true]
    intro hblank
    simp only [isGapBlank, isInlineBlank, isLineEnd, Bool.true_and, Bool.or_eq_true,
      beq_iff_eq] at hblank
    rcases hblank with (((((rfl | rfl) | rfl) | rfl) | rfl) | rfl) | ((rfl | rfl) | rfl) | rfl <;>
      cases hc
  all_goals
    rw [hd] at hc
    cases hc

instance : Atom Operand where
  text := Operand.text
  value := Operand.value
  leaf o := o.reads.root?
  skip := skipGap_operand
  reads o _ := unaryExpr_operand o

section

variable {s : List Char} (h : Unreserved s)

include h

theorem compound_none (hs : ∀ c r, s = c :: r → (c == '\x7b') = false) :
    compound grammar s = none := by
  have hif : ifStmt grammar s = none := bind_of_none (h _ (by decide))
  have hwhile : whileStmt grammar s = none := bind_of_none (h _ (by decide))
  have hdo : doStmt grammar s = none := bind_of_none (h _ (by decide))
  have hfor : forStmt grammar s = none := bind_of_none (h _ (by decide))
  rw [compound, orElse_of_none (map_of_none ((block_first grammar).fails hs)), orElse_of_none hif,
    orElse_of_none hwhile, orElse_of_none hdo, orElse_of_none hfor]
  exact bind_of_none (h _ (by decide))

theorem functionDecl_none : functionDecl grammar s = none :=
  bind_of_none (bind_of_none (h _ (by decide)))

theorem declaration_none : declaration grammar s = none := by
  refine bind_of_none ?_
  rw [declKind, orElse_of_none (bind_of_none (h _ (by decide))),
    orElse_of_none (bind_of_none (h _ (by decide)))]
  exact bind_of_none (h _ (by decide))

theorem jump_none : jump grammar s = none := by
  rw [jump, orElse_of_none (bind_of_none (h _ (by decide))),
    orElse_of_none (bind_of_none (h _ (by decide))), orElse_of_none (bind_of_none (h _ (by decide)))]
  exact bind_of_none (h _ (by decide))

/-- Where no keyword stands, a statement is an expression, a block or nothing. -/
theorem stmt_eq_terminated (hgap : skipGap s = s)
    (hs : ∀ c r, s = c :: r → (c == '\x7b') = false ∧ (c == ';') = false) :
    stmt grammar s = ((Stmt.expr <$> expr grammar : Scan Stmt) >>= fun t => stmtEnd >>= fun _ => pure t) s := by
  have hsemicolon : (do char ';'; return Stmt.empty : Scan Stmt) s = none :=
    bind_of_none ((First.char ';').fails fun c r hr => (hs c r hr).2)
  show ((do char ';'; return Stmt.empty) <|> compound grammar <|> functionDecl grammar <|>
    terminated grammar) (skipGap s) = _
  rw [hgap, orElse_of_none hsemicolon, orElse_of_none (compound_none h fun c r hr => (hs c r hr).1),
    orElse_of_none (functionDecl_none h), terminated, bind_apply,
    orElse_of_none (declaration_none h), orElse_of_none (jump_none h), bind_apply]

end

theorem stmt_operand {s r r' : List Char} {e : Expr} (hfront : ∃ c u, s = c :: u ∧ isFront c = true)
    (hreserved : Unreserved s) (hgap : skipGap s = s) (he : expr grammar s = some (e, r))
    (hend : stmtEnd r = some ((), r')) : stmt grammar s = some (.expr e, r') := by
  obtain ⟨c, u, rfl, hc⟩ := hfront
  rw [stmt_eq_terminated hreserved hgap, bind_of_some (map_of_some he), bind_of_some hend]
  · rfl
  · rintro _ _ ⟨⟩
    exact ⟨beq_eq_false_of_class hc rfl, beq_eq_false_of_class hc rfl⟩

end Grammar

namespace Program

open Grammar Lexical Scan

structure Filler where
  text : List Char
  blanks : Blanks text

def Filler.strays (f : Filler) : Program := if skipInlineGap f.text = [] then [] else [.empty]

theorem closes (f : Filler) : Closes (f.text ++ [';']) := by
  have hskip : skipGap (f.text ++ [';']) = [';'] := f.blanks.skip [';']
  refine ⟨⟨?_, ?_, stepAfter_blanks f.blanks rfl⟩, ?_⟩
  · intro c r hr
    rcases f.blanks.front with hnil | ⟨d, u, hu, hd⟩
    · rw [hnil] at hr
      cases hr
      rfl
    · rw [hu] at hr
      cases hr
      rcases hd with hd | rfl
      · exact isLexical_of_isGapBlank hd
      · rfl
  · show callSuffix grammar (skipGap (f.text ++ [';'])) = none
    rw [hskip]
    exact (callSuffix_first grammar).cons rfl
  · rw [hskip]
    decide

theorem stmtEnd_filler (f : Filler) : ∃ r, stmtEnd (f.text ++ [';']) = some ((), r) ∧
    many (stmt grammar) r = some (f.strays, []) := by
  have hnil : many (stmt grammar) [] = some ([], []) := rfl
  have hstray {g : List Char} (hg : Blanks g) :
      many (stmt grammar) (g ++ [';']) = some ([.empty], []) := by
    have hempty : stmt grammar (g ++ [';']) = some (.empty, []) := by
      show ((do char ';'; return Stmt.empty) <|> compound grammar <|> functionDecl grammar <|>
        terminated grammar) (skipGap (g ++ [';'])) = _
      rw [skipGap, ← Lexical.skip, hg.skip]
      rfl
    rw [many_of_some stmt_takes hempty, hnil]
    rfl
  have hbreak {u r : List Char} (hu : skipInlineGap (f.text ++ [';']) = u) (hc : char ';' u = none)
      (hr : (atLineEnd <|> blockComment) u = some ((), r)) :
      stmtEnd (f.text ++ [';']) = some ((), r) := by
    have hfirst : (do inlineGap; char ';') (f.text ++ [';']) = none := by
      show char ';' (skipInlineGap (f.text ++ [';'])) = none
      rw [hu, hc]
    rw [stmtEnd, orElse_of_none hfirst]
    refine orElse_of_some ?_
    show (atLineEnd <|> blockComment) (skipInlineGap (f.text ++ [';'])) = some ((), r)
    rw [hu, hr]
  cases f.blanks.cut with
  | through hskip =>
      have hstrays : f.strays = [] := if_pos (by
        rw [← List.append_nil f.text, skipInlineGap, ← Lexical.skip, hskip]
        rfl)
      refine ⟨[], orElse_of_some ?_, by rw [hstrays, hnil]⟩
      show char ';' (skipInlineGap (f.text ++ [';'])) = some ((), [])
      rw [skipInlineGap, ← Lexical.skip, hskip]
      rfl
  | lineEnd c hc g hg hskip =>
      have hstrays : f.strays = [.empty] := if_neg (by
        rw [← List.append_nil f.text, skipInlineGap, ← Lexical.skip, hskip]
        exact List.cons_ne_nil _ _)
      refine ⟨g ++ [';'], hbreak (hskip [';']) (if_neg ?_) (orElse_of_some ?_), ?_⟩
      · rintro rfl
        cases hc
      · rw [atLineEnd_cons, if_pos hc]
      · rw [hstrays, hstray hg]
  | comment body hbody g hg hskip =>
      have hstrays : f.strays = [.empty] := if_neg (by
        rw [← List.append_nil f.text, skipInlineGap, ← Lexical.skip, hskip]
        exact List.cons_ne_nil _ _)
      refine ⟨g ++ [';'], hbreak (hskip [';']) rfl ((orElse_of_none rfl).trans ?_), ?_⟩
      · rw [blockComment_block, blockEnd_body hbody, Option.map_some]
      · rw [hstrays, hstray hg]

/-- A chain with a semicolon behind it is one expression statement: the one grouped tree of its
operands and operators. -/
theorem parse_chain (c : Chain Operand) (f : Filler) :
    ∃ t, parse (String.ofList (c.text ++ (f.text ++ [';']))) = .ok (.expr t :: f.strays) ∧
      t.inorder = c.inorder ∧ t.Grouped ∧ ∀ t' : Expr, t'.inorder = c.inorder → t'.Grouped → t' = t := by
  have hcloses := closes f
  obtain ⟨t, ht, hinorder, hgrouped⟩ := expr_chain hcloses ⟨[], f.blanks.skip [';']⟩ c
  obtain ⟨r, hr, hrest⟩ := stmtEnd_filler f
  have hstmt : stmt grammar (c.text ++ (f.text ++ [';'])) = some (.expr t, r) := by
    have hstops := stops_links hcloses c.links
    rw [Chain.text, List.append_assoc] at ht ⊢
    refine stmt_operand ?_ (c.first.reads.unreserved hstops.ends) (skipGap_operand c.first _) ht hr
    obtain ⟨d, u, hfirst, hd⟩ := c.first.reads.front
    exact ⟨d, u ++ _, congrArg (· ++ _) hfirst, hd⟩
  refine ⟨t, ?_, hinorder, hgrouped, fun t' h h' => h'.unique hgrouped (h.trans hinorder.symm)⟩
  rw [parse, String.toList_ofList]
  refine ofChars?_eq_ok.mpr ⟨[], ?_, rfl⟩
  rw [grammar_stmts, many_of_some stmt_takes hstmt, hrest]
  rfl

end Program

end SmallScript
