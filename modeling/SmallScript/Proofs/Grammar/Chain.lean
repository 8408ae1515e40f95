import SmallScript.Proofs.Grammar.First
import SmallScript.Proofs.Grammar.Knot
import SmallScript.Proofs.Grammar.Operator

namespace SmallScript

namespace Grammar

open Lexical Scan

/-- A gap that starts with a blank. -/
structure Spacing where
  text : List Char
  blanks : Blanks text
  front : ∃ c r, text = c :: r ∧ isGapBlank true c = true

/-- What may follow an operand: nothing that goes on with it. -/
structure Stops (k : List Char) : Prop where
  ends : Ends k
  suffix : (do gap; callSuffix grammar : Scan Suffix) k = none
  step : (do inlineGap; stepAfter : Scan UpdateOp) k = none

class Atom (α : Type) where
  text : α → List Char
  value : α → Expr
  leaf (a : α) : (value a).root? = none
  skip (a : α) (k : List Char) : skipGap (text a ++ k) = text a ++ k
  reads (a : α) {k : List Char} (hk : Stops k) : unaryExpr grammar (text a ++ k) = some (value a, k)

variable {α : Type} [Atom α]

structure Link (α : Type) where
  before : Spacing
  op : BinaryOp
  after : Spacing
  operand : α

namespace Link

def text (l : Link α) : List Char :=
  l.before.text ++ (l.op.symbol.toList ++ (l.after.text ++ Atom.text l.operand))

def inorder (l : Link α) : List (Expr ⊕ BinaryOp) := [.inr l.op, .inl (Atom.value l.operand)]

end Link

structure Chain (α : Type) where
  first : α
  links : List (Link α)

namespace Chain

def text (c : Chain α) : List Char := Atom.text c.first ++ c.links.flatMap Link.text

/-- The operands and operators of a chain, from left to right. -/
def inorder (c : Chain α) : List (Expr ⊕ BinaryOp) :=
  .inl (Atom.value c.first) :: c.links.flatMap Link.inorder

end Chain

structure Closes (k : List Char) : Prop extends Stops k where
  operator : ∀ level ∈ levels, operatorOf level (skipGap k) = none

variable {k : List Char}

def levelReader (j : Nat) : Scan Expr := (levels.take j).foldl binaryLevel (unaryExpr grammar)

theorem levelReader_succ {j : Nat} (hj : j < levels.length) :
    levelReader (j + 1) = binaryLevel (levelReader j) levels[j] := by
  rw [levelReader, levelReader, List.take_succ_eq_append_getElem hj, List.foldl_append]
  rfl

theorem takes_tailOf {j : Nat} (hj : j < levels.length) : Takes (tailOf levels[j] (levelReader j)) :=
  takes_of_follows fun n => Same.tie.tailOf (d := 0) (List.getElem_mem hj) <|
    Same.tie.foldl_binaryLevel (fun _ hl => List.mem_of_mem_take hl) <|
    (Same.tie.unaryExpr (grammar_follow n)).mono (Nat.le_succ n)

theorem stepAfter_none {s : List Char} (hplus : ∀ r, s ≠ '+' :: '+' :: r)
    (hminus : ∀ r, s ≠ '-' :: '-' :: r) : stepAfter s = none := by
  have htext (w : String) (h : ∀ r, s ≠ w.toList ++ r) : text w s = none := by
    rw [Option.eq_none_iff_forall_ne_some]
    exact fun x hx => h x.2 (eq_append_of_chars hx)
  rw [stepAfter, orElse_of_none (bind_of_none (htext "++" hplus)),
    bind_of_none (htext "--" hminus)]

theorem isLexical_of_isGapBlank {c : Char} (h : isGapBlank true c = true) : isLexical c = false := by
  simp only [isGapBlank, isInlineBlank, isLineEnd, Bool.true_and, Bool.or_eq_true, beq_iff_eq] at h
  rcases h with (((((rfl | rfl) | rfl) | rfl) | rfl) | rfl) | ((rfl | rfl) | rfl) | rfl <;> rfl

theorem skip_symbol (across : Bool) (op : BinaryOp) (a : Spacing) (r : List Char) :
    Lexical.skip across (op.symbol.toList ++ (a.text ++ r)) = op.symbol.toList ++ (a.text ++ r) := by
  obtain ⟨d, w, hsymbol, hblank, -, hslash, -⟩ := symbol_front op
  obtain ⟨c, u, hafter, hc⟩ := a.front
  rw [hsymbol, hafter, List.cons_append]
  refine skip_stop (hblank across) (fun r' hd => ?_) fun r' hd => ?_ <;> rw [hslash hd] <;>
    rintro ⟨⟩ <;> cases hc

theorem skipGap_link (l : Link α) (r : List Char) : skipGap (l.text ++ r) =
    l.op.symbol.toList ++ (l.after.text ++ (Atom.text l.operand ++ r)) := by
  rw [Link.text, List.append_assoc, skipGap, ← Lexical.skip, l.before.blanks.skip, List.append_assoc,
    List.append_assoc]
  exact skip_symbol true l.op l.after _

theorem stepAfter_blanks {g s : List Char} (hg : Blanks g) (h : stepAfter (skipInlineGap s) = none) :
    stepAfter (skipInlineGap (g ++ s)) = none := by
  cases hg.cut with
  | through hskip =>
      rw [skipInlineGap, ← Lexical.skip, hskip]
      exact h
  | lineEnd c hc g' _ hskip =>
      rw [skipInlineGap, ← Lexical.skip, hskip]
      refine stepAfter_none ?_ ?_ <;> intro r heq <;> rw [List.cons.injEq] at heq <;>
        rw [heq.1] at hc <;> cases hc
  | comment body _ g' _ hskip =>
      rw [skipInlineGap, ← Lexical.skip, hskip]
      refine stepAfter_none ?_ ?_ <;> intro r heq <;>
        exact absurd (List.cons.inj heq).1 (by decide)

theorem stops_link (l : Link α) (r : List Char) : Stops (l.text ++ r) where
  ends := by
    obtain ⟨c, u, hbefore, hc⟩ := l.before.front
    rw [Link.text, hbefore]
    rintro _ _ ⟨⟩
    exact isLexical_of_isGapBlank hc
  suffix := by
    show callSuffix grammar (skipGap (l.text ++ r)) = none
    obtain ⟨d, w, hsymbol, -, hsuffix, -⟩ := symbol_front l.op
    rw [skipGap_link, hsymbol, List.cons_append]
    refine (callSuffix_first grammar).cons ?_
    simp only [List.mem_cons, List.not_mem_nil, or_false, not_or] at hsuffix
    simp only [Bool.or_eq_false_iff, beq_eq_false_iff_ne]
    exact hsuffix
  step := by
    show stepAfter (skipInlineGap (l.text ++ r)) = none
    obtain ⟨d, w, hsymbol, -, -, -, hsingle⟩ := symbol_front l.op
    obtain ⟨c, u, hafter, hc⟩ := l.after.front
    rw [Link.text, List.append_assoc]
    refine stepAfter_blanks l.before.blanks ?_
    rw [List.append_assoc, List.append_assoc, skipInlineGap, ← Lexical.skip, skip_symbol, hsymbol, hafter]
    refine stepAfter_none ?_ ?_ <;> intro r heq <;> rw [List.cons_append, List.cons.injEq] at heq
    · rw [hsingle (.inl heq.1)] at heq
      cases heq.2
      cases hc
    · rw [hsingle (.inr heq.1)] at heq
      cases heq.2
      cases hc

variable (hk : Closes k)

include hk

theorem stops_links (ls : List (Link α)) : Stops (ls.flatMap Link.text ++ k) := by
  cases ls with
  | nil => exact hk.toStops
  | cons l ls =>
      rw [List.flatMap_cons, List.append_assoc]
      exact stops_link l _

omit hk in
theorem tailOf_apply (level : List Infix) (p : Scan Expr) (s : List Char) :
    tailOf level p s = (operatorOf level (skipGap s)).bind fun x =>
      (p (skipGap x.2)).map fun y => ((x.1, y.1), y.2) := by
  have hgap {α : Type} (f : Unit → Scan α) (s : List Char) : (gap >>= f) s = f () (skipGap s) := rfl
  rw [tailOf, hgap, bind_apply]
  cases operatorOf level (skipGap s) with
  | none => rfl
  | some x =>
      rw [Option.bind_some, Option.bind_some, hgap, bind_apply]
      cases p (skipGap x.2) <;> rfl

/-- What the reader of a level makes of a chain: a grouped tree of a first part of the links, whose
operators bind at least as tightly as the level. The operator behind it binds looser. -/
structure Reading (j : Nat) (k : List Char) (o : α) (ls : List (Link α)) (t : Expr)
    (pre post : List (Link α)) : Prop where
  split : ls = pre ++ post
  reads : levelReader j (Atom.text o ++ (ls.flatMap Link.text ++ k)) = some (t, post.flatMap Link.text ++ k)
  inorder : t.inorder = (Chain.mk o pre).inorder
  grouped : t.Grouped
  root : ∀ op ∈ t.root?, 10 < op.binding + j
  looser : ∀ l ∈ post.head?, l.op.binding + j ≤ 10

/-- Operators of one level and their right operands, and the tree that they make of a left one. -/
structure Collected (j : Nat) (k : List Char) (ls : List (Link α)) (xs : List (BinaryOp × Expr))
    (pre post : List (Link α)) : Prop where
  split : ls = pre ++ post
  reads (hj : j < levels.length) : many (tailOf levels[j] (levelReader j))
    (ls.flatMap Link.text ++ k) = some (xs, post.flatMap Link.text ++ k)
  looser : ∀ l ∈ post.head?, l.op.binding + (j + 1) ≤ 10
  inorder (t : Expr) : (xs.foldl (fun l (op, r) => Expr.binary op l r) t).inorder =
    t.inorder ++ pre.flatMap Link.inorder
  grouped {t : Expr} (h : t.Grouped) (hroot : ∀ op ∈ t.root?, 10 < op.binding + (j + 1)) :
    (xs.foldl (fun l (op, r) => Expr.binary op l r) t).Grouped ∧
      ∀ op ∈ (xs.foldl (fun l (op, r) => Expr.binary op l r) t).root?, 10 < op.binding + (j + 1)

theorem collected {j : Nat} (hread : ∀ (o : α) (ls : List (Link α)), ∃ t pre post, Reading j k o ls t pre post)
    (ls : List (Link α)) (hlooser : ∀ l ∈ ls.head?, l.op.binding + j ≤ 10) :
    ∃ xs pre post, Collected j k ls xs pre post := by
  induction hn : ls.length using Nat.strongRecOn generalizing ls with
  | ind n ih =>
    subst hn
    have hstop (hnext : ∀ l ∈ ls.head?, l.op.binding + (j + 1) ≤ 10)
        (hfail : ∀ hj : j < levels.length,
          operatorOf levels[j] (skipGap (ls.flatMap Link.text ++ k)) = none) :
        ∃ xs pre post, Collected j k ls xs pre post :=
      ⟨[], [], ls, {
        split := rfl
        reads := fun hj => many_of_none (by rw [tailOf_apply, hfail hj, Option.bind_none])
        looser := hnext
        inorder := fun t => (List.append_nil _).symm
        grouped := fun h hroot => ⟨h, hroot⟩ }⟩
    cases ls with
    | nil =>
        refine hstop (by rintro _ ⟨⟩) fun hj => ?_
        rw [List.flatMap_nil, List.nil_append]
        exact hk.operator levels[j] (List.getElem_mem hj)
    | cons l ls =>
        obtain ⟨c, u, hafter, hc⟩ := l.after.front
        have hle := hlooser l rfl
        have hfront (hj : j < levels.length) :
            operatorOf levels[j] (skipGap ((l :: ls).flatMap Link.text ++ k)) =
              if l.op.binding + j = 10 then
                some (l.op, l.after.text ++ (Atom.text l.operand ++ (ls.flatMap Link.text ++ k)))
              else none := by
          rw [List.flatMap_cons, List.append_assoc, skipGap_link, hafter, List.cons_append]
          exact operatorOf_symbol hc l.op hj _
        by_cases hlevel : l.op.binding + j = 10
        · obtain ⟨e, pre, post, he⟩ := hread l.operand ls
          have hlength : post.length < (l :: ls).length := by
            rw [he.split, List.length_cons, List.length_append]
            omega
          obtain ⟨xs, pre', post', hxs⟩ := ih post.length hlength post he.looser rfl
          have hgrouped {t : Expr} (h : t.Grouped) (hroot : ∀ op ∈ t.root?, 10 < op.binding + (j + 1)) :
              (Expr.binary l.op t e).Grouped ∧
                ∀ op ∈ (Expr.binary l.op t e).root?, 10 < op.binding + (j + 1) := by
            refine ⟨⟨fun o ho => ?_, fun o ho => ?_, h, he.grouped⟩, ?_⟩
            · have := hroot o ho
              omega
            · have := he.root o ho
              omega
            · rintro _ ⟨⟩
              omega
          refine ⟨(l.op, e) :: xs, l :: pre ++ pre', post', {
            split := by rw [he.split, hxs.split, List.cons_append, List.cons_append, List.append_assoc]
            reads := fun hj => ?_
            looser := hxs.looser
            inorder := fun t => ?_
            grouped := fun h hroot => ?_ }⟩
          · have htail : tailOf levels[j] (levelReader j) ((l :: ls).flatMap Link.text ++ k) =
                some ((l.op, e), post.flatMap Link.text ++ k) := by
              rw [tailOf_apply, hfront hj, if_pos hlevel, Option.bind_some, skipGap,
                ← Lexical.skip, l.after.blanks.skip]
              have hskip := Atom.skip l.operand (ls.flatMap Link.text ++ k)
              rw [skipGap, ← Lexical.skip] at hskip
              rw [hskip, he.reads, Option.map_some]
            rw [many_of_some (takes_tailOf hj) htail, hxs.reads hj, Option.map_some]
          · rw [List.foldl_cons, hxs.inorder, Expr.inorder, he.inorder, Chain.inorder,
              List.flatMap_append, List.flatMap_cons]
            simp [Link.inorder]
          · obtain ⟨h, hroot⟩ := hgrouped h hroot
            exact hxs.grouped h hroot
        · refine hstop ?_ fun hj => by rw [hfront hj, if_neg hlevel]
          rintro _ ⟨⟩
          omega

theorem reading (j : Nat) (hj : j ≤ levels.length) :
    ∀ (o : α) (ls : List (Link α)), ∃ t pre post, Reading j k o ls t pre post := by
  induction j with
  | zero =>
      intro o ls
      have hroot := Atom.leaf o
      refine ⟨Atom.value o, [], ls, {
        split := rfl
        reads := Atom.reads o (stops_links hk ls)
        inorder := Expr.inorder_of_root? hroot
        grouped := .of_root? hroot
        root := by rw [hroot]; exact fun _ => nofun
        looser := fun l _ => ?_ }⟩
      cases l.op <;> decide
  | succ j ih =>
      intro o ls
      have hread := ih (Nat.le_of_succ_le hj)
      obtain ⟨t, pre, post, ht⟩ := hread o ls
      obtain ⟨xs, pre', post', hxs⟩ := collected hk hread post ht.looser
      obtain ⟨hgrouped, hroot⟩ := hxs.grouped ht.grouped fun op hop =>
        Nat.lt_succ_of_lt (ht.root op hop)
      refine ⟨_, pre ++ pre', post', {
        split := by rw [ht.split, hxs.split, List.append_assoc]
        reads := ?_
        inorder := ?_
        grouped := hgrouped
        root := hroot
        looser := hxs.looser }⟩
      · rw [levelReader_succ hj, binaryLevel, bind_of_some ht.reads, bind_of_some (hxs.reads hj)]
        rfl
      · rw [hxs.inorder, ht.inorder, Chain.inorder, Chain.inorder, List.flatMap_append,
          List.cons_append]

theorem binaryExpr_chain (c : Chain α) : ∃ t, binaryExpr grammar (c.text ++ k) = some (t, k) ∧
    t.inorder = c.inorder ∧ t.Grouped := by
  obtain ⟨t, pre, post, ht⟩ := reading hk levels.length (Nat.le_refl _) c.first c.links
  cases post with
  | cons l post =>
      -- the loosest level leaves no operator
      have hloose := ht.looser l rfl
      have hbinding : 0 < l.op.binding := by cases l.op <;> decide
      have hlength : levels.length = 10 := rfl
      omega
  | nil =>
      have hsplit := ht.split
      rw [List.append_nil] at hsplit
      refine ⟨t, ?_, ?_, ht.grouped⟩
      · rw [Chain.text, List.append_assoc]
        exact ht.reads
      · rw [ht.inorder, ← hsplit]

theorem expr_chain (hend : ∃ r, skipGap k = ';' :: r) (c : Chain α) :
    ∃ t, expr grammar (c.text ++ k) = some (t, k) ∧ t.inorder = c.inorder ∧ t.Grouped := by
  obtain ⟨t, ht, hinorder, hgrouped⟩ := binaryExpr_chain hk c
  obtain ⟨r, hr⟩ := hend
  have hbranches : branches grammar k = none := by
    refine bind_of_none ?_
    show char '?' (skipGap k) = none
    rw [hr]
    rfl
  have hassign : (do gap; let op ← assignOp; let e ← grammar.expr; return (op, e) :
      Scan (AssignOp × Expr)) k = none := by
    show (assignOp >>= fun op => grammar.expr >>= fun e => pure (op, e)) (skipGap k) = none
    rw [hr]
    exact bind_of_none rfl
  have hconditional : conditional grammar (c.text ++ k) = some (t, k) := by
    rw [conditional, bind_of_some ht, bind_of_some (maybe_of_none hbranches)]
    rfl
  refine ⟨t, ?_, hinorder, hgrouped⟩
  show assignment grammar (skipGap (c.text ++ k)) = some (t, k)
  rw [Chain.text, List.append_assoc, Atom.skip, ← List.append_assoc, ← Chain.text, assignment,
    bind_of_some hconditional, bind_of_some (maybe_of_none hassign)]
  rfl

end Grammar

end SmallScript
