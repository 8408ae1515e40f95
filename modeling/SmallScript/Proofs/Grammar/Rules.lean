import SmallScript.Grammar.Program
import SmallScript.Proofs.Grammar.Tie

namespace SmallScript.Grammar

open Lexical Scan

/-- The rules go in lockstep on tied texts of which the first is shorter than `n`, those of
statements where the tie is firm, and from what other statements leave. -/
structure Rules.Follow (T : Nat → List Char → List Char → Prop) (n : Nat) (g g' : Rules)
    (L : Nat → List Char → List Char → Prop := T) : Prop where
  expr : ∀ d, Follows 1 n (T d) (T d) g.expr g'.expr
  newExpr : ∀ d, Follows 1 n (T d) (T d) g.newExpr g'.newExpr
  stmt : ∀ d, Firm (T d) → Follows 1 n (L d) (L d) g.stmt g'.stmt
  stmts : ∀ d, Firm (T d) → Follows 0 n (L d) (L d) g.stmts g'.stmts

theorem unaryExpr_star (g : Rules) (r : List Char) : unaryExpr g ('*' :: r) = none := rfl

theorem symbol_levels : ∀ level ∈ levels, ∀ i ∈ level,
    (isPlain i.op.symbol = true ∨ i.op.symbol = "/") ∧ ∀ c ∈ i.notBefore, isSymbolic c = true := by
  have hsymbols : levels.all (fun level => level.all fun i =>
      (isPlain i.op.symbol || i.op.symbol == "/") && i.notBefore.all isSymbolic) = true := by cbv
  simpa only [List.all_eq_true, Bool.and_eq_true, Bool.or_eq_true, beq_iff_eq] using hsymbols

section

variable {T U : List Char → List Char → Prop} {n : Nat}
  (hnext : ∀ {p : Char → Bool}, (∀ c, p c = true → isSymbolic c = true) →
    Follows 0 n U U (notNext p) (notNext p))

include hnext

theorem operatorOf_follows {level : List Infix} (hlevel : level ∈ levels)
    (hsymbol : ∀ {w : String}, isPlain w = true ∨ w = "/" → Follows 1 n T U (text w) (text w)) :
    Follows 1 n T U (operatorOf level) (operatorOf level) := by
  have hplain := symbol_levels level hlevel
  clear hlevel
  induction level with
  | nil => exact .failure
  | cons i rest ih =>
      obtain ⟨hi, hbefore⟩ := hplain i List.mem_cons_self
      refine .orElse ?_ (ih fun j hj => hplain j (List.mem_cons_of_mem i hj))
      refine (hsymbol hi).andThen fun _ => Follows.bind (hnext fun c hc => ?_) fun _ => .pure i.op
      exact hbefore c (List.contains_iff_mem.mp hc)

theorem assignOp_follows
    (hplain : ∀ {w : String}, isPlain w = true → Follows 1 n T U (text w) (text w))
    (hslash : Follows 1 n T U (text "/=") (text "/="))
    (hequals : Follows 1 n T U (char '=') (char '=')) :
    Follows 1 n T U assignOp assignOp := by
  refine .orElse ((hplain rfl).andThen fun _ => .pure _) <|
    .orElse ((hplain rfl).andThen fun _ => .pure _) <|
    .orElse ((hplain rfl).andThen fun _ => .pure _) <|
    .orElse (hslash.andThen fun _ => .pure _) <|
    .orElse ((hplain rfl).andThen fun _ => .pure _) <| hequals.andThen fun _ => ?_
  refine Follows.bind (hnext fun c hc => ?_) fun _ => .pure _
  rw [beq_iff_eq.mp hc]
  rfl

end

namespace Symbols

variable {T : List Char → List Char → Prop} (H : Symbols T) {n : Nat}

include H

theorem constant : Follows 1 n T T constant constant :=
  ((H.lexemes.numeral n).map _).orElse <| ((H.keyword n rfl).andThen fun _ => .pure _).orElse <|
    ((H.keyword n rfl).andThen fun _ => .pure _).orElse <|
    (H.keyword n rfl).andThen fun _ => .pure _

theorem stepAfter : Follows 1 n T T stepAfter stepAfter :=
  ((H.text n rfl).andThen fun _ => .pure _).orElse ((H.text n rfl).andThen fun _ => .pure _)

theorem leading : Follows 1 n T T leading leading := by
  refine .orElse ?_ <| .orElse ?_ <| .orElse ?_ <| .orElse ?_ <| .orElse ?_ <| .orElse ?_ ?_
  · exact (H.text n rfl).andThen fun _ => .pure _
  · exact (H.text n rfl).andThen fun _ => .pure _
  · exact (H.keyword n rfl).andThen fun _ => .pure _
  all_goals exact (H.char n rfl).andThen fun _ => .pure _

theorem declKind : Follows 1 n T T declKind declKind :=
  .orElse ((H.keyword n rfl).andThen fun _ => .pure _) <|
    .orElse ((H.keyword n rfl).andThen fun _ => .pure _) <|
    (H.keyword n rfl).andThen fun _ => .pure _

end Symbols

namespace Tie

variable {T L : Nat → List Char → List Char → Prop} {d n : Nat} {g g' : Rules}

section

variable (H : Tie T L) (h : g.Follow T n g' L)

include H

theorem comma : Follows 1 n (T d) (T d) comma comma := H.mark n rfl

include h

theorem functionDef : Follows 1 (n + 1) (T d) (Both (T d) (L d)) (functionDef g) (functionDef g') :=
  (H.keyword _ rfl).bindBehind fun _ =>
    (H.behindGap n (H.identifier n)).maybe.bind fun _ =>
    (H.markOpening n rfl).tied.bind fun _ =>
    ((H.behindGap n (H.identifier n)).sepBy H.comma).bind fun _ =>
    (H.markClosing n rfl).tied.bind fun _ =>
    (H.markOpening n rfl).left.bind fun _ =>
    (h.stmts (d + 1) (H.firm d)).bind fun _ =>
    (H.markClosingLeft n rfl).bind fun _ => .pure _

theorem arrayItems : Follows 1 (n + 1) (T d) (T d) (arrayItems g) (arrayItems g') :=
  (H.opening _ rfl).bindBehind fun _ =>
    ((h.expr (d + 1)).sepBy H.comma).bind fun items =>
    H.comma.maybe.bind fun _ =>
    (H.markClosing n rfl).tied.bind fun _ => .pure items

omit h in
theorem propertyKey : Follows 1 n (T d) (T d) propertyKey propertyKey :=
  (H.name n).orElse <| (H.quoted n).orElse <| (H.numeral n).andThen fun _ => .pure _

theorem property : Follows 1 n (T d) (T d) (property g) (property g') :=
  H.behindGap n <| H.propertyKey.andThen fun key =>
    (H.mark n rfl).bind fun _ => (h.expr d).bind fun value => .pure (key, value)

theorem objectProperties :
    Follows 1 (n + 1) (T d) (T d) (objectProperties g) (objectProperties g') :=
  (H.opening _ rfl).bindBehind fun _ =>
    ((H.property h).sepBy H.comma).bind fun properties =>
    H.comma.maybe.bind fun _ =>
    (H.markClosing n rfl).tied.bind fun _ => .pure properties

theorem parenthesised : Follows 1 (n + 1) (T d) (T d) (parenthesised g) (parenthesised g') :=
  (H.opening _ rfl).bindBehind fun _ =>
    (h.expr (d + 1)).bind fun e => (H.markClosing n rfl).tied.bind fun _ => .pure e

theorem primary : Follows 1 (n + 1) (T d) (T d) (primary g) (primary g') :=
  ((H.functionDef h).tied.map _).orElse <| ((H.arrayItems h).map _).orElse <|
    ((H.objectProperties h).map _).orElse <| ((H.parenthesised h).map _).orElse <|
    H.symbols.constant.orElse <| ((H.quoted _).map _).orElse <| (H.identifier _).map _

theorem arguments : Follows 1 (n + 1) (T d) (T d) (arguments g) (arguments g') :=
  (H.opening _ rfl).bindBehind fun _ =>
    ((h.expr (d + 1)).sepBy H.comma).bind fun args =>
    (H.markClosing n rfl).tied.bind fun _ => .pure args

omit h in
theorem fieldSuffix : Follows 1 n (T d) (T d) fieldSuffix fieldSuffix :=
  (H.char n rfl).andThen fun _ => H.behindGap n ((H.name n).map _).weaken

theorem indexSuffix : Follows 1 (n + 1) (T d) (T d) (indexSuffix g) (indexSuffix g') :=
  (H.opening _ rfl).bindBehind fun _ =>
    (h.expr (d + 1)).bind fun _ => (H.markClosing n rfl).tied.bind fun _ => .pure _

theorem memberSuffix : Follows 1 (n + 1) (T d) (T d) (memberSuffix g) (memberSuffix g') :=
  H.fieldSuffix.orElse (H.indexSuffix h)

theorem callSuffix : Follows 1 (n + 1) (T d) (T d) (callSuffix g) (callSuffix g') :=
  ((H.arguments h).map _).orElse (H.memberSuffix h)

theorem member : Follows 1 (n + 1) (T d) (T d) (member g) (member g') :=
  (H.primary h).andThen fun _ =>
    (Follows.many (H.behindGap _ (H.memberSuffix h))).bind fun _ => .pure _

theorem newExpr : Follows 1 (n + 1) (T d) (T d) (newExpr g) (newExpr g') := by
  refine (H.keyword _ rfl).bindBehind fun _ => H.behindGap n ?_
  refine (((h.newExpr d).orElse ((H.member h).mono (Nat.le_succ n))).bind fun callee => ?_)
  exact (H.behindGap n ((H.arguments h).mono (Nat.le_succ n))).maybe.bind fun _ => .pure _

theorem callExpr : Follows 1 (n + 1) (T d) (T d) (callExpr g) (callExpr g') :=
  ((H.newExpr h).orElse (H.primary h)).andThen fun _ =>
    (Follows.many (H.behindGap _ (H.callSuffix h))).bind fun _ => .pure _

theorem postfixExpr : Follows 1 (n + 1) (T d) (T d) (postfixExpr g) (postfixExpr g') := by
  refine (H.callExpr h).andThen fun e =>
    ((H.scanInlineGap _).bind fun _ => H.symbols.stepAfter).maybe.bind fun op => ?_
  cases op with
  | none => exact .pure _
  | some op => exact .pure _

/-- An operand may be asked for at a star, where both readers fail. -/
theorem unaryExpr : Follows 1 (n + 1) (Operands T d) (T d) (unaryExpr g) (unaryExpr g') := by
  rintro s t hs (hT | ⟨r, r', rfl, rfl⟩)
  · have hops : Follows 1 (n + 1) (T d) (T d) (do let op ← Grammar.leading; Lexical.gap; return op)
        (do let op ← Grammar.leading; Lexical.gap; return op) :=
      H.symbols.leading.andThen fun op => H.behindGap _ (.pure op)
    refine Follows.bind hops.many (fun ops => ?_) s t hs hT
    exact (H.postfixExpr h).andThen fun _ => .pure _
  · exact .inl ⟨unaryExpr_star g r, unaryExpr_star g' r'⟩

end

section

variable (H : Tie T L)

include H

theorem operatorOf {level : List Infix} (hlevel : level ∈ levels) :
    Follows 1 n (Settled T d) (Operands T d) (operatorOf level) (operatorOf level) :=
  operatorOf_follows (H.notNextOperand n) hlevel (H.symbol n)

theorem tailOf {level : List Infix} (hlevel : level ∈ levels) {p q : Scan Expr}
    (hp : Follows 1 n (Operands T d) (T d) p q) :
    Follows 1 n (T d) (T d) (tailOf level p) (tailOf level q) := by
  refine (H.scanGap n).bind fun _ => (H.operatorOf hlevel).andThen fun op => ?_
  have hgap : Follows 0 n (Operands T d) (Operands T d) Lexical.gap Lexical.gap := by
    rintro s t hs (hT | ⟨r, r', rfl, rfl⟩)
    · exact (H.scanGap n).imp (fun _ _ h => .inl h.tied) s t hs hT
    · exact .inr
        ⟨(), _, _, rfl, rfl, .inr ⟨r, r', rfl, rfl⟩, Nat.le_refl _, Nat.le_refl _⟩
  exact hgap.bind fun _ => hp.bind fun e => .pure (op, e)

theorem binaryLevel {level : List Infix} (hlevel : level ∈ levels) {p q : Scan Expr}
    (hp : Follows 1 n (Operands T d) (T d) p q) :
    Follows 1 n (Operands T d) (T d) (binaryLevel p level) (binaryLevel q level) :=
  hp.andThen fun _ => (H.tailOf hlevel hp).many.bind fun _ => .pure _

theorem foldl_binaryLevel {ls : List (List Infix)} (hls : ∀ level ∈ ls, level ∈ levels)
    {p q : Scan Expr} (hp : Follows 1 n (Operands T d) (T d) p q) :
    Follows 1 n (Operands T d) (T d) (ls.foldl Grammar.binaryLevel p)
      (ls.foldl Grammar.binaryLevel q) := by
  induction ls generalizing p q with
  | nil => exact hp
  | cons level ls ih =>
      exact ih (fun l hl => hls l (List.mem_cons_of_mem level hl))
        (H.binaryLevel (hls level List.mem_cons_self) hp)

theorem assignOp : Follows 1 n (Settled T d) (T d) assignOp assignOp := by
  refine assignOp_follows (H.symbols.notNext n) (fun hw => (H.text n hw).on fun _ _ h => h.tied) ?_
    ((H.char n rfl).on fun _ _ h => h.tied)
  rw [Scan.text, show "/=".toList = ['/', '='] from rfl, chars_cons, chars_cons]
  exact (H.charSlash n).andThen fun _ =>
    ((H.charOperand n rfl (by decide)).andThen fun _ => .pure ()).weaken

theorem beforeBrace : Follows 0 n (T d) (Both (T d) (L d)) beforeBrace beforeBrace := by
  intro s t hs hT
  cases hf : H.fronts hT with
  | nil => exact .inl ⟨rfl, rfl⟩
  | cons c h =>
      simp only [Grammar.beforeBrace]
      by_cases hc : c = '\x7d'
      · have hleft := H.leave hT (by rintro _ ⟨⟩; rw [hc]; rfl)
        exact .inr ⟨(), _, _, if_pos hc, if_pos hc, ⟨hT, hleft⟩, Nat.le_refl _, Nat.le_refl _⟩
      · exact .inl ⟨if_neg hc, if_neg hc⟩
  | comment c hc r r' => exact .inl ⟨rfl, by rcases hc with rfl | rfl <;> rfl⟩
  | feed r r' => exact .inl ⟨rfl, rfl⟩
  | past r' => exact .inl ⟨rfl, rfl⟩

/-- Where a statement may end, the end of the line is left to the tie. -/
theorem stmtEnd (hd : Firm (T d)) : Follows 0 n (T d) (L d) stmtEnd stmtEnd := by
  have hend : Follows 0 n (T d) (L d) endOfText endOfText := by
    intro s t hs hT
    cases hf : H.fronts hT with
    | nil => exact .inr ⟨(), _, _, rfl, rfl, H.leave hT nofun, Nat.le_refl _, Nat.le_refl _⟩
    | cons | comment | feed => exact .inl ⟨rfl, rfl⟩
    | past r' => cases hd _ hT
  exact .orElse ((H.scanInlineGap n).bind fun _ => (H.semicolon n hd).left.weaken) <|
    .orElse (H.lineBreak n d) <|
    .orElse (H.behindGap n H.beforeBrace.left) (H.behindGap n hend)

end

section

variable (H : Tie T L) (h : g.Follow T n g' L)

include H h

theorem binaryExpr : Follows 1 (n + 1) (T d) (T d) (binaryExpr g) (binaryExpr g') :=
  (H.foldl_binaryLevel (fun _ hl => hl) (H.unaryExpr h)).on fun _ _ hT => .inl hT

theorem branches : Follows 1 (n + 1) (T d) (T d) (branches g) (branches g') :=
  (H.mark _ rfl).bindBehind fun _ => (h.expr d).bind fun _ => (H.mark n rfl).bind fun _ =>
    (h.expr d).bind fun _ => .pure _

theorem conditional : Follows 1 (n + 1) (T d) (T d) (conditional g) (conditional g') := by
  refine (H.binaryExpr h).andThen fun test => (H.branches h).maybe.bind fun b => ?_
  cases b with
  | none => exact .pure _
  | some b => exact .pure _

theorem assignment : Follows 1 (n + 1) (T d) (T d) (assignment g) (assignment g') := by
  refine (H.conditional h).andThen fun target => Follows.bind (Follows.maybe (k := 1) ?_) fun b => ?_
  · exact (H.scanGap _).bind fun _ => H.assignOp.bindBehind fun op =>
      (h.expr d).bind fun e => .pure (op, e)
  · cases b with
    | none => exact .pure _
    | some b => exact .pure _

theorem expr : Follows 1 (n + 1) (T d) (T d) (expr g) (expr g') :=
  H.behindGap _ (H.assignment h)

theorem declarator : Follows 1 n (T d) (T d) (declarator g) (declarator g') :=
  H.behindGap n <| (H.identifier n).andThen fun _ =>
    (Follows.maybe ((H.mark n rfl).bind fun _ => h.expr d)).bind fun _ => .pure _

theorem declaration : Follows 1 (n + 1) (T d) (T d) (declaration g) (declaration g') :=
  H.symbols.declKind.bindBehind fun _ => (H.declarator h).bind fun _ =>
    (Follows.many (H.comma.bind fun _ => H.declarator h)).bind fun _ => .pure _

theorem block : Follows 1 (n + 1) (T d) (Both (T d) (L d)) (block g) (block g') :=
  (H.charOpening _ rfl).left.bindBehind fun _ => (h.stmts (d + 1) (H.firm d)).bind fun _ =>
    (H.markClosingLeft n rfl).bind fun _ => .pure _

theorem condition : Follows 1 n (T d) (Both (T d) (L d)) (condition g) (condition g') :=
  (H.markOpening n rfl).tied.andThen fun _ => (h.expr (d + 1)).bind fun _ =>
    (H.markClosing n rfl).bind fun _ => .pure _

theorem ifStmt (hd : Firm (T d)) : Follows 1 (n + 1) (T d) (L d) (ifStmt g) (ifStmt g') := by
  refine (H.keyword _ rfl).bindBehind fun _ => (H.condition h).left.bind fun _ =>
    (h.stmt d hd).bind fun _ => Follows.bind (Follows.maybe (k := 1) ?_) fun _ => .pure _
  exact H.behindGapLeft n ((H.keywordLeft n rfl).andThen fun _ => (h.stmt d hd).weaken)

theorem whileStmt (hd : Firm (T d)) : Follows 1 (n + 1) (T d) (L d) (whileStmt g) (whileStmt g') :=
  (H.keyword _ rfl).bindBehind fun _ => (H.condition h).left.bind fun _ =>
    (h.stmt d hd).bind fun _ => .pure _

theorem doStmt (hd : Firm (T d)) : Follows 1 (n + 1) (T d) (L d) (doStmt g) (doStmt g') := by
  refine (H.keywordLeft _ rfl).bindBehind fun _ => (h.stmt d hd).bind fun _ => H.behindGapLeft n ?_
  refine (H.keyword n rfl).bind fun _ => (H.condition h).bind fun _ => ?_
  have hsemicolon := ((H.scanInlineGap n).bind fun _ => H.semicolon n hd).left
  exact ((hsemicolon.on fun _ _ h => h.tied).maybeOf fun _ _ h => h.left).bind fun _ => .pure _

theorem forInit : Follows 1 n (T d) (T d) (forInit g) (forInit g') :=
  ((H.declaration h).mono (Nat.le_succ n)).orElse ((h.expr d).map _)

theorem forStmt (hd : Firm (T d)) : Follows 1 (n + 1) (T d) (L d) (forStmt g) (forStmt g') :=
  (H.keyword _ rfl).bindBehind fun _ => (H.markOpening n rfl).tied.bind fun _ =>
    H.behindGap n <| (H.forInit h).maybe.bind fun _ =>
    (H.markSemicolon n (H.firm d)).bind fun _ => (h.expr (d + 1)).maybe.bind fun _ =>
    (H.markSemicolon n (H.firm d)).bind fun _ => (h.expr (d + 1)).maybe.bind fun _ =>
    (H.markClosing n rfl).left.bind fun _ => (h.stmt d hd).bind fun _ => .pure _

theorem catchClause : Follows 1 n (T d) (Both (T d) (L d)) (catchClause g) (catchClause g') := by
  refine H.behindGap n ((H.keyword n rfl).andThen fun _ => ?_)
  refine (H.markOpening n rfl).tied.bind fun _ => H.behindGap n ?_
  refine (H.identifier n).bind fun _ => (H.markClosing n rfl).tied.bind fun _ => H.behindGap n ?_
  exact ((H.block h).mono (Nat.le_succ n)).bind fun _ => .pure _

theorem finallyClause : Follows 1 n (T d) (Both (T d) (L d)) (finallyClause g) (finallyClause g') :=
  H.behindGap n ((H.keyword n rfl).andThen fun _ =>
    H.behindGap n ((H.block h).mono (Nat.le_succ n)).weaken)

theorem tryStmt : Follows 1 (n + 1) (T d) (Both (T d) (L d)) (tryStmt g) (tryStmt g') := by
  refine (H.keyword _ rfl).bindBehind fun _ => H.behindGap n ?_
  refine ((H.block h).mono (Nat.le_succ n)).bind fun body => ?_
  refine ((H.catchClause h).on fun _ _ h => h.tied).maybe.bind fun handler => ?_
  refine ((H.finallyClause h).on fun _ _ h => h.tied).maybe.bind fun finalizer => ?_
  cases handler <;> cases finalizer
  · exact .failure
  all_goals exact .pure _

theorem compound (hd : Firm (T d)) : Follows 1 (n + 1) (T d) (L d) (compound g) (compound g') :=
  .orElse ((H.block h).left.map _) <| .orElse (H.ifStmt h hd) <| .orElse (H.whileStmt h hd) <|
    .orElse (H.doStmt h hd) <| .orElse (H.forStmt h hd) (H.tryStmt h).left

theorem functionDecl : Follows 1 (n + 1) (T d) (Both (T d) (L d)) (functionDecl g) (functionDecl g') := by
  refine (H.functionDef h).andThen fun f => ?_
  cases hf : f.name with
  | none =>
      exact .failure
  | some x =>
      exact .pure _

theorem jump (hline : Follows 0 n (T d) (T d) sameLine sameLine) :
    Follows 1 (n + 1) (T d) (T d) (jump g) (jump g') :=
  .orElse ((H.keyword _ rfl).andThen fun _ => .pure _) <|
    .orElse ((H.keyword _ rfl).andThen fun _ => .pure _) <|
    .orElse ((H.keyword _ rfl).bindBehind fun _ =>
      (Follows.maybe (hline.bind fun _ => h.expr d)).bind fun _ => .pure _) <|
    (H.keyword _ rfl).bindBehind fun _ => hline.bind fun _ => (h.expr d).bind fun _ => .pure _

theorem jumpAtFront (hline : Follows 0 n (T d) (T d) sameLine sameLine) :
    Follows 1 (n + 1) (Both (Settled T d) (L d)) (T d) (Grammar.jump g) (Grammar.jump g') :=
  (H.jump h hline).on fun _ _ h => h.tied.tied

/-- Jumps are only read at the front of statements. -/
theorem stmt (hd : Firm (T d)) (hjump : Follows 1 (n + 1) (Both (Settled T d) (L d)) (T d)
      (Grammar.jump g) (Grammar.jump g')) :
    Follows 1 (n + 1) (L d) (L d) (stmt g) (stmt g') := by
  have hfront {α : Type} {k : Nat} {U : List Char → List Char → Prop} {p q : Scan α}
      (h : Follows k (n + 1) (T d) U p q) : Follows k (n + 1) (Both (Settled T d) (L d)) U p q :=
    h.on fun _ _ h => h.tied.tied
  have hterminated :
      Follows 1 (n + 1) (Both (Settled T d) (L d)) (L d) (terminated g) (terminated g') :=
    ((hfront (H.declaration h)).orElse (hjump.orElse (hfront ((H.expr h).map _)))).andThen fun _ =>
      (H.stmtEnd hd).bind fun _ => .pure _
  have hempty := (H.semicolon (n + 1) hd).left.andThen fun _ => .pure (n := n + 1) Stmt.empty
  exact (H.scanGapLeft _).bind fun _ => .orElse (hfront hempty) <|
    .orElse (hfront (H.compound h hd)) <| .orElse (hfront (H.functionDecl h).left) hterminated

theorem unfold (hjump : ∀ d, Follows 1 (n + 1) (Both (Settled T d) (L d)) (T d)
      (Grammar.jump g) (Grammar.jump g')) :
    g.unfold.Follow T (n + 1) g'.unfold L where
  expr _ := H.expr h
  newExpr _ := H.newExpr h
  stmt d hd := H.stmt h hd (hjump d)
  stmts d hd := (H.stmt h hd (hjump d)).many

end

end Tie

end SmallScript.Grammar
