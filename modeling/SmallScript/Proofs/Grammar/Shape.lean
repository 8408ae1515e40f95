import SmallScript.Proofs.Grammar.Knot
import SmallScript.Proofs.Shape
import SmallScript.Proofs.Yields
import Mathlib

namespace SmallScript

namespace Expr

/-- The expression starts with a function only where the text starts with it. -/
def Leads (s : List Char) (e : Expr) : Prop :=
  ∀ f, e.lead = .function f → ∃ r, Grammar.functionDef Grammar.grammar s = some (f, r)

theorem root?_of_rank {e : Expr} (h : e.rank ≤ 2) : e.root? = none := by
  cases e <;> first | rfl | exact (Nat.not_succ_le_self 2 h).elim

end Expr

namespace Grammar

open Lexical Scan Yields

def assignTail : Scan (AssignOp × Expr) := do
  gap
  let op ← assignOp
  let e ← grammar.expr
  return (op, e)

/-- What the rules yield on texts shorter than `n`. What follows an expression or a statement does
not go on with it. -/
structure Shapes (n : Nat) : Prop where
  expr : Yields 1 n anywhere grammar.expr fun e r => e.Every .shape ∧ assignTail r = none
  newExpr : Yields 1 n anywhere grammar.newExpr fun e _ => e.Every .shape ∧ e.isNew = true
  stmt : Yields 1 n anywhere grammar.stmt fun t r =>
    t.Every .shape ∧ (t.isOpen = true → elseTail r = none)
  stmts : Yields 0 n anywhere grammar.stmts fun ts _ => everyStmt .shape ts

section

variable {n : Nat} {P : List Char → Prop}

theorem yields_of_same {α : Type} {k : Nat} {U : List Char → List Char → Prop} {p : Scan α}
    (h : Follows k n (Same 0) U p p) : Yields k n P p fun _ _ => True :=
  .of_follows h fun _ _ => rfl

theorem yields_settle : Yields 0 n P gap fun _ r => skipGap r = r := by
  intro s _ _ _ r hr
  cases hr
  exact ⟨(skip_suffix s).length_le, skip_skip s⟩

theorem yields_gap : Yields 0 n P gap fun _ _ => True := yields_settle.imp fun _ _ _ => trivial

theorem yields_char (c : Char) : Yields 1 n P (char c) fun _ _ => True := by
  intro s _ _ a r hr
  cases s with
  | nil => cases hr
  | cons d s =>
      rw [char, Option.ite_none_right_eq_some] at hr
      cases hr.2
      exact ⟨Nat.le_refl _, trivial⟩

theorem yields_mark (c : Char) : Yields 1 n P (mark c) fun _ _ => True :=
  yields_gap.bind fun _ => yields_char c

theorem yields_comma : Yields 1 n P comma fun _ _ => True := yields_mark ','

theorem yields_keyword {w : String} (hw : isPlain w = true) :
    Yields 1 n P (keyword w) fun _ _ => True :=
  yields_of_same (Same.tie.keyword n hw)

theorem yields_name : Yields 1 n P name fun x _ => isWord x = true := by
  intro s hs hP x r hr
  refine ⟨(yields_of_same (Same.tie.name n) s hs hP x r hr).1, ?_⟩
  exact (name_eq_some_iff.mp hr).2.1

theorem yields_identifier : Yields 1 n P identifier fun x _ => IsIdentifier x := by
  intro s hs hP x r hr
  refine ⟨(yields_of_same (Same.tie.identifier n) s hs hP x r hr).1, ?_⟩
  obtain ⟨hname, hreserved⟩ := identifier_eq_some_iff.mp hr
  refine identifier_eq_some_iff.mpr ⟨?_, hreserved⟩
  exact name_eq_some_iff.mpr ⟨(List.append_nil _).symm, (name_eq_some_iff.mp hname).2.1, nofun⟩

theorem yields_numeral :
    Yields 1 n P Number.Numeral.numeral fun x _ => Number.IsLiteral x := by
  intro s hs hP x r hr
  exact ⟨(yields_of_same (Same.tie.numeral n) s hs hP x r hr).1, Number.isLiteral_of_numeral hr⟩

theorem yields_quoted : Yields 1 n P quoted fun _ _ => True := yields_of_same (Same.tie.quoted n)

end

/-- The operators of a level bind by as much as it stands from the loosest one. -/
theorem binding_of_mem : ∀ j : Fin levels.length, ∀ i ∈ levels.get j, i.op.binding + j = 10 := by
  decide

theorem yields_operatorOf (n : Nat) (level : List Infix) :
    Yields 0 n anywhere (operatorOf level) fun op _ => ∃ i ∈ level, i.op = op := by
  induction level with
  | nil => exact .failure
  | cons i level ih =>
      refine .or ?_ (ih.imp fun op _ h => ?_)
      · intro s _ _ op r hr
        rw [Infix.scan] at hr
        obtain ⟨_, u, htext, hu⟩ := bind_eq_some hr
        obtain ⟨_, v, hnext, hv⟩ := bind_eq_some hu
        cases hv
        rw [(notNext_eq_some_iff.mp hnext).1, eq_append_of_chars htext, List.length_append]
        exact ⟨Nat.le_add_left _ _, i, List.mem_cons_self, rfl⟩
      · obtain ⟨j, hj, hop⟩ := h
        exact ⟨j, List.mem_cons_of_mem i hj, hop⟩

def Suffix.IsShaped : Suffix → Prop
  | .call args => everyExpr .shape args
  | .index key => key.Every .shape
  | .field x => isWord x = true

def Suffix.isCall : Suffix → Bool
  | .call _ => true
  | .index _ | .field _ => false

theorem foldl_suffix {e : Expr} (he : e.Every .shape) (hrank : e.rank = 0) {xs : List Suffix}
    (hxs : ∀ x ∈ xs, x.IsShaped) :
    (xs.foldl Suffix.apply e).Every .shape ∧ (xs.foldl Suffix.apply e).rank = 0 ∧
      (xs.foldl Suffix.apply e).lead = e.lead := by
  induction xs generalizing e with
  | nil => exact ⟨he, hrank, rfl⟩
  | cons x xs ih =>
      obtain ⟨hx, htail⟩ := List.forall_mem_cons.mp hxs
      rw [List.foldl_cons]
      cases x with
      | call args => exact ih (e := .call e args) ⟨hrank, he, hx⟩ rfl htail
      | index key => exact ih (e := .index e key) ⟨hrank, he, hx⟩ rfl htail
      | field x => exact ih (e := .field e x) ⟨⟨hrank, hx⟩, he⟩ rfl htail

theorem isMember_foldl {e : Expr} (he : e.isMember = true) {xs : List Suffix}
    (hxs : ∀ x ∈ xs, x.isCall = false) : (xs.foldl Suffix.apply e).isMember = true := by
  induction xs generalizing e with
  | nil => exact he
  | cons x xs ih =>
      obtain ⟨hx, hxs⟩ := List.forall_mem_cons.mp hxs
      rw [List.foldl_cons]
      refine ih ?_ hxs
      cases x with
      | call args => cases hx
      | index | field => exact he

structure Binds (j : Nat) (e : Expr) : Prop where
  every : e.Every .shape
  rank : e.rank ≤ 3
  root : ∀ o ∈ e.root?, 10 < o.binding + j

theorem foldl_binary {j : Nat} {e : Expr} (he : Binds (j + 1) e) {xs : List (BinaryOp × Expr)}
    (hxs : ∀ x ∈ xs, x.1.binding + j = 10 ∧ Binds j x.2) :
    Binds (j + 1) (xs.foldl (fun l (op, r) => .binary op l r) e) ∧
      (xs.foldl (fun l (op, r) => .binary op l r) e).lead = e.lead := by
  induction xs generalizing e with
  | nil => exact ⟨he, rfl⟩
  | cons x xs ih =>
      obtain ⟨⟨hop, hx⟩, hxs⟩ := List.forall_mem_cons.mp hxs
      refine ih (e := .binary x.1 e x.2) ⟨⟨⟨⟨he.rank, fun o ho => ?_⟩, hx.rank, fun o ho => ?_⟩,
        he.every, hx.every⟩, Nat.le_refl 3, ?_⟩ hxs
      · have := he.root o ho
        omega
      · have := hx.root o ho
        omega
      · rintro _ ⟨⟩
        omega

def Leading.isPrefix : Leading → Bool
  | update op => !op.isPostfix
  | unary _ => true

theorem foldr_leading {e : Expr} (he : e.Every .shape) (hrank : e.rank ≤ 2) {ops : List Leading}
    (hops : ∀ op ∈ ops, op.isPrefix = true) :
    (ops.foldr Leading.apply e).Every .shape ∧ (ops.foldr Leading.apply e).rank ≤ 2 ∧
      (ops ≠ [] → ∀ f, (ops.foldr Leading.apply e).lead ≠ .function f) := by
  induction ops with
  | nil => exact ⟨he, hrank, fun h => (h rfl).elim⟩
  | cons op ops ih =>
      obtain ⟨hop, htail⟩ := List.forall_mem_cons.mp hops
      obtain ⟨hevery, hrank, -⟩ := ih htail
      rw [List.foldr_cons]
      cases op with
      | unary op => exact ⟨⟨hrank, hevery⟩, Nat.le_refl 2, fun _ _ => nofun⟩
      | update op =>
          have hpostfix : ¬op.isPostfix = true := by simpa [Leading.isPrefix] using hop
          refine ⟨⟨(if_neg hpostfix).mpr hrank, hevery⟩, ?_, fun _ f => ?_⟩
          · simp only [Leading.apply, Expr.rank, if_neg hpostfix, Nat.le_refl]
          · rw [Leading.apply, Expr.lead, if_neg hpostfix]
            exact nofun

namespace Shapes

variable {n : Nat} (h : Shapes n)

include h

theorem functionDef : Yields 1 (n + 1) anywhere (functionDef grammar)
    fun f _ => f.Shaped ∧ f.Every .shape := by
  refine (yields_keyword rfl).bindBehind fun _ => ?_
  refine (yields_gap.bind fun _ => yields_identifier).maybeOf.bind fun name => .fact fun hname => ?_
  refine (yields_mark '(').bind fun _ => ?_
  refine (sepBy (yields_gap.bind fun _ => yields_identifier) yields_comma).bind fun params =>
    .fact fun hparams => ?_
  refine (yields_mark ')').bind fun _ => (yields_mark '\x7b').bind fun _ => ?_
  refine h.stmts.bind fun body => .fact fun hbody => (yields_mark '\x7d').bind fun _ => ?_
  exact .pure fun _ _ => ⟨⟨hname, hparams⟩, hbody⟩

theorem value {P : List Char → Prop} :
    Yields 1 n P grammar.expr fun e _ => e.Every .shape :=
  (h.expr.on fun _ _ => trivial).imp fun _ _ he => he.1

theorem body {P : List Char → Prop} : Yields 0 n P grammar.stmts fun ts _ => everyStmt .shape ts :=
  h.stmts.on fun _ _ => trivial

theorem items :
    Yields 0 n anywhere (Scan.sepBy grammar.expr comma) fun items _ => everyExpr .shape items :=
  (sepBy h.value yields_comma).imp fun _ _ hitems => everyExpr_iff.mpr hitems

theorem arrayItems : Yields 1 (n + 1) anywhere (arrayItems grammar)
    fun items _ => everyExpr .shape items := by
  refine (yields_char '[').bindBehind fun _ => h.items.bind fun items => .fact fun hitems => ?_
  refine (yields_comma.maybeOf (A := fun _ => True)).bind fun _ => (yields_mark ']').bind fun _ => ?_
  exact .pure fun _ _ => hitems

theorem property : Yields 1 n anywhere (property grammar) fun p _ => p.2.Every .shape := by
  have hkey : Yields 1 n anywhere propertyKey fun _ _ => True :=
    yields_of_same Same.tie.propertyKey
  refine yields_gap.bind fun _ => hkey.andThen fun key => (yields_mark ':').bind fun _ => ?_
  exact h.value.weaken.bind fun e => .fact fun he => .pure fun _ _ => he

theorem objectProperties : Yields 1 (n + 1) anywhere (objectProperties grammar)
    fun ps _ => everyProperty .shape ps := by
  refine (yields_char '\x7b').bindBehind fun _ => ?_
  refine (sepBy h.property yields_comma).bind fun ps => .fact fun hps => ?_
  refine (yields_comma.maybeOf (A := fun _ => True)).bind fun _ => ?_
  exact (yields_mark '\x7d').bind fun _ => .pure fun _ _ => everyProperty_iff.mpr hps

theorem parenthesised : Yields 1 (n + 1) anywhere (parenthesised grammar)
    fun e _ => e.Every .shape := by
  refine (yields_char '(').bindBehind fun _ => h.value.bind fun e => .fact fun he => ?_
  exact (yields_mark ')').bind fun _ => .pure fun _ _ => he

theorem arguments : Yields 1 (n + 1) anywhere (arguments grammar)
    fun args _ => everyExpr .shape args := by
  refine (yields_char '(').bindBehind fun _ => h.items.bind fun args => .fact fun hargs => ?_
  exact (yields_mark ')').bind fun _ => .pure fun _ _ => hargs

theorem primary (s : List Char) : Yields 1 (n + 1) (· = s) (primary grammar)
    fun e _ => e.Every .shape ∧ e.rank = 0 ∧ e.isMember = true ∧ e.Leads s := by
  have hconstant : Yields 1 (n + 1) (· = s) constant
      fun e _ => e.Every .shape ∧ e.rank = 0 ∧ e.isMember = true ∧ e.Leads s := by
    refine .or (.map (yields_numeral.imp fun x _ hx => ⟨hx, rfl, rfl, nofun⟩)) <| .or ?_ <| .or ?_ ?_
    all_goals
      exact (yields_keyword rfl).andThen fun _ => .pure fun _ _ => ⟨trivial, rfl, rfl, nofun⟩
  refine .or (.map ?_) <| .or (.map ?_) <| .or (.map ?_) <| .or (.map ?_) <| .or hconstant <|
    .or (.map ?_) (.map ?_)
  · refine (h.functionDef.on fun _ _ => trivial).self.imp fun f r hf => ?_
    refine ⟨hf.1, rfl, rfl, ?_⟩
    rintro _ ⟨⟩
    exact ⟨r, hf.2⟩
  · exact (h.arrayItems.on fun _ _ => trivial).imp fun _ _ hi => ⟨⟨trivial, hi⟩, rfl, rfl, nofun⟩
  · exact (h.objectProperties.on fun _ _ => trivial).imp fun _ _ hp =>
      ⟨⟨trivial, hp⟩, rfl, rfl, nofun⟩
  · exact (h.parenthesised.on fun _ _ => trivial).imp fun _ _ he =>
      ⟨⟨trivial, he⟩, rfl, rfl, nofun⟩
  · exact yields_quoted.imp fun _ _ _ => ⟨trivial, rfl, rfl, nofun⟩
  · exact yields_identifier.imp fun _ _ hx => ⟨hx, rfl, rfl, nofun⟩

theorem memberSuffix : Yields 1 (n + 1) anywhere (memberSuffix grammar)
    fun x _ => x.IsShaped ∧ x.isCall = false := by
  refine .or ?_ ?_
  · refine (yields_char '.').andThen fun _ => yields_gap.bind fun _ => .map ?_
    exact yields_name.weaken.imp fun _ _ hx => ⟨hx, rfl⟩
  · refine (yields_char '[').bindBehind fun _ => h.value.bind fun key => .fact fun hkey => ?_
    exact (yields_mark ']').bind fun _ => .pure fun _ _ => ⟨hkey, rfl⟩

theorem callSuffix : Yields 1 (n + 1) anywhere (callSuffix grammar) fun x _ => x.IsShaped :=
  .or (.map h.arguments) (h.memberSuffix.imp fun _ _ hx => hx.1)

theorem member : Yields 1 (n + 1) anywhere (member grammar)
    fun e _ => e.Every .shape ∧ e.isMember = true := by
  refine .each fun s _ => (h.primary s).andThen fun e => .fact fun he => ?_
  refine (many (yields_gap.bind fun _ => h.memberSuffix)).bind fun xs => .fact fun hxs => ?_
  exact .pure fun _ _ => ⟨(foldl_suffix he.1 he.2.1 fun x hx => (hxs x hx).1).1,
    isMember_foldl he.2.2.1 fun x hx => (hxs x hx).2⟩

theorem newCall : Yields 1 (n + 1) anywhere (Grammar.newExpr grammar)
    fun e _ => e.Every .shape ∧ e.isNew = true := by
  have hcallee : Yields 1 n anywhere (grammar.newExpr <|> Grammar.member grammar)
      fun e _ => e.Every .shape ∧ (e.isMember = true ∨ e.isNew = true) :=
    .or (h.newExpr.imp fun _ _ he => ⟨he.1, .inr he.2⟩)
      ((h.member.mono (Nat.le_succ n)).imp fun _ _ he => ⟨he.1, .inl he.2⟩)
  refine (yields_keyword rfl).bindBehind fun _ => yields_gap.bind fun _ => ?_
  refine hcallee.weaken.bind fun e => .fact fun he => ?_
  refine ((yields_gap.bind fun _ => h.arguments.mono (Nat.le_succ n)).maybeOf).bind fun args =>
    .fact fun hargs => .pure fun _ _ => ⟨⟨he.2, he.1, ?_⟩, rfl⟩
  cases args with
  | none => exact trivial
  | some args => exact hargs args rfl

theorem callExpr (s : List Char) : Yields 1 (n + 1) (· = s) (callExpr grammar)
    fun e _ => e.Every .shape ∧ e.rank = 0 ∧ e.Leads s := by
  have hbase : Yields 1 (n + 1) (· = s) (Grammar.newExpr grammar <|> Grammar.primary grammar)
      fun e _ => e.Every .shape ∧ e.rank = 0 ∧ e.Leads s := by
    refine .or ((h.newCall.on fun _ _ => trivial).imp fun e _ he => ?_)
      ((h.primary s).imp fun _ _ he => ⟨he.1, he.2.1, he.2.2.2⟩)
    obtain ⟨hevery, hnew⟩ := he
    cases e with
    | new callee args => exact ⟨hevery, rfl, nofun⟩
    | _ => cases hnew
  refine hbase.andThen fun e => .fact fun he => ?_
  refine (many (yields_gap.bind fun _ => h.callSuffix)).bind fun xs => .fact fun hxs => ?_
  obtain ⟨hevery, hrank, hlead⟩ := foldl_suffix he.1 he.2.1 hxs
  refine .pure fun _ _ => ⟨hevery, hrank, ?_⟩
  rw [Expr.Leads, hlead]
  exact he.2.2

theorem postfixExpr (s : List Char) : Yields 1 (n + 1) (· = s) (postfixExpr grammar)
    fun e _ => e.Every .shape ∧ e.rank ≤ 2 ∧ e.Leads s := by
  have hstep : Yields 1 (n + 1) anywhere (do inlineGap; stepAfter) fun op _ =>
      op.isPostfix = true := by
    refine .bind (yields_of_same (Same.inlineGap _ 0)) fun _ => .or ?_ ?_
    all_goals exact (yields_of_same (Same.tie.text _ rfl)).andThen fun _ => .pure fun _ _ => rfl
  refine (h.callExpr s).andThen fun e => .fact fun he => hstep.maybeOf.bind fun op => .fact fun hop => ?_
  cases op with
  | none => exact .pure fun _ _ => ⟨he.1, by rw [he.2.1]; exact Nat.zero_le 2, he.2.2⟩
  | some op =>
      have hpostfix := hop op rfl
      refine .pure fun _ _ => ⟨⟨?_, he.1⟩, ?_, ?_⟩
      · exact (if_pos hpostfix).mpr he.2.1
      · rw [Expr.rank, if_pos hpostfix]
        decide
      · rw [Expr.Leads, Expr.lead, if_pos hpostfix]
        exact he.2.2

theorem unaryExpr (s : List Char) : Yields 1 (n + 1) (· = s) (unaryExpr grammar)
    fun e _ => e.Every .shape ∧ e.rank ≤ 2 ∧ e.Leads s := by
  have hleading : Yields 1 (n + 1) anywhere (do let op ← leading; gap; return op)
      fun op _ => op.isPrefix = true := by
    have hop : Yields 1 (n + 1) anywhere leading fun op _ => op.isPrefix = true := by
      refine .or ?_ <| .or ?_ <| .or ?_ <| .or ?_ <| .or ?_ <| .or ?_ ?_
      · exact (yields_of_same (Same.tie.text _ rfl)).andThen fun _ => .pure fun _ _ => rfl
      · exact (yields_of_same (Same.tie.text _ rfl)).andThen fun _ => .pure fun _ _ => rfl
      · exact (yields_keyword rfl).andThen fun _ => .pure fun _ _ => rfl
      all_goals exact (yields_char _).andThen fun _ => .pure fun _ _ => rfl
    exact hop.andThen fun op => .fact fun hop => yields_gap.bind fun _ => .pure fun _ _ => hop
  have hops : Yields 0 (n + 1) (· = s) (many (do let op ← leading; gap; return op))
      fun ops r => (∀ op ∈ ops, op.isPrefix = true) ∧ (ops = [] → r = s) := by
    intro t ht hs ops r hr
    subst hs
    obtain ⟨hlength, hall⟩ := hleading.many t ht trivial ops r hr
    refine ⟨hlength, hall, ?_⟩
    rintro rfl
    exact eq_of_many_nil hr
  refine hops.bind fun ops => .given fun hall => ?_
  cases ops with
  | nil =>
      refine ((h.postfixExpr s).on fun r hr => hr rfl).andThen fun e => .fact fun he => ?_
      exact .pure fun _ _ => he
  | cons op ops =>
      refine .each fun t _ => (h.postfixExpr t).andThen fun e => .fact fun he => ?_
      obtain ⟨hevery, hrank, hlead⟩ := foldr_leading he.1 he.2.1 hall
      exact .pure fun _ _ => ⟨hevery, hrank, fun f hf => (hlead nofun f hf).elim⟩

theorem foldl_binaryLevel {j : Nat} (hj : j ≤ levels.length) (s : List Char) :
    Yields 1 (n + 1) (· = s) ((levels.take j).foldl binaryLevel (Grammar.unaryExpr grammar))
      fun e _ => Binds j e ∧ e.Leads s := by
  induction j generalizing s with
  | zero =>
      refine (h.unaryExpr s).imp fun e _ he => ⟨⟨he.1, Nat.le_succ_of_le he.2.1, ?_⟩, he.2.2⟩
      rw [Expr.root?_of_rank he.2.1]
      exact nofun
  | succ j ih =>
      have hlevel := fun s => ih (Nat.le_of_succ_le hj) s
      rw [List.take_succ_eq_append_getElem hj, List.foldl_append, List.foldl_cons, List.foldl_nil]
      have htail : Yields 1 (n + 1) anywhere
          (tailOf levels[j] ((levels.take j).foldl binaryLevel (Grammar.unaryExpr grammar)))
          fun x _ => x.1.binding + j = 10 ∧ Binds j x.2 := by
        refine yields_gap.bind fun _ => (yields_operatorOf _ _).bind fun op => .fact fun hop => ?_
        refine yields_gap.bind fun _ => .each fun t _ => ?_
        refine (hlevel t).andThen fun e => .fact fun he => .pure fun _ _ => ⟨?_, he.1⟩
        obtain ⟨i, hi, rfl⟩ := hop
        exact binding_of_mem ⟨j, hj⟩ i hi
      refine (hlevel s).andThen fun e => .fact fun he => htail.many.bind fun xs => .fact fun hxs => ?_
      obtain ⟨hbinds, hlead⟩ := foldl_binary (j := j)
        ⟨he.1.every, he.1.rank, fun o ho => Nat.lt_succ_of_lt (he.1.root o ho)⟩ hxs
      refine .pure fun _ _ => ⟨hbinds, ?_⟩
      rw [Expr.Leads, hlead]
      exact he.2

theorem conditional (s : List Char) : Yields 1 (n + 1) (· = s) (conditional grammar)
    fun e r => (e.Every .shape ∧ e.Leads s) ∧ (e.rank ≤ 3 ∨ assignTail r = none) := by
  have hbinary : Yields 1 (n + 1) (· = s) (binaryExpr grammar)
      fun e _ => Binds levels.length e ∧ e.Leads s := h.foldl_binaryLevel (Nat.le_refl _) s
  have hbranches : Yields 1 (n + 1) anywhere (branches grammar)
      fun x r => (x.1.Every .shape ∧ x.2.Every .shape) ∧ assignTail r = none := by
    refine (yields_mark '?').bindBehind fun _ => h.value.bind fun t => .fact fun ht => ?_
    refine (yields_mark ':').bind fun _ => h.expr.weaken.bind fun f => .given fun hf => ?_
    exact .pure fun _ hr => ⟨⟨ht, hf⟩, hr⟩
  refine hbinary.andThen fun e => .fact fun he => hbranches.maybe.bind fun x => ?_
  cases x with
  | none => exact .pure fun _ _ => ⟨⟨he.1.every, he.2⟩, .inl he.1.rank⟩
  | some x => exact .given fun hx => .pure fun _ hr => ⟨⟨⟨he.1.rank, he.1.every, hx⟩, he.2⟩, .inr hr⟩

theorem assignment (s : List Char) : Yields 1 (n + 1) (· = s) (assignment grammar)
    fun e r => (e.Every .shape ∧ e.Leads s) ∧ assignTail r = none := by
  have hop : Yields 1 (n + 1) (fun r => skipGap r = r) assignOp fun _ _ => True :=
    .of_follows (Same.tie.assignOp (d := 0)) fun _ hr => ⟨rfl, hr, hr⟩
  have htail : Yields 1 (n + 1) anywhere assignTail
      fun x r => x.2.Every .shape ∧ assignTail r = none := by
    refine yields_settle.bind fun _ => hop.bindBehind fun op => h.expr.weaken.bind fun e => ?_
    exact .given fun he => .pure fun _ hr => ⟨he, hr⟩
  refine (h.conditional s).andThen fun e => .given fun he => ?_
  refine (htail.orFails (A := e.rank ≤ 3)).maybe.bind fun x => ?_
  cases x with
  | none => exact .pure fun _ hr => ⟨he, hr.2⟩
  | some x =>
      exact .given fun hrank => .given fun hx => .pure fun _ hr => ⟨⟨⟨hrank, he.1, hx⟩, he.2⟩, hr⟩

theorem wholeExpr (s : List Char) : Yields 1 (n + 1) (· = s) (Grammar.expr grammar)
    fun e r => (e.Every .shape ∧ e.Leads (skipGap s)) ∧ assignTail r = none := by
  have hgap : Yields 0 (n + 1) (· = s) gap fun _ r => r = skipGap s := by
    intro t _ hs _ r hr
    subst hs
    cases hr
    exact ⟨(skip_suffix t).length_le, rfl⟩
  exact hgap.bind fun _ => h.assignment (skipGap s)

theorem declarator : Yields 1 n anywhere (declarator grammar)
    fun d _ => IsIdentifier d.1 ∧ everyOption .shape d.2 := by
  refine yields_gap.bind fun _ => yields_identifier.andThen fun x => .fact fun hx => ?_
  refine (Yields.maybeOf (k := 1) ((yields_mark '=').bind fun _ => h.value)).bind fun init =>
    .fact fun hinit => ?_
  exact .pure fun _ _ => ⟨hx, everyOption_iff.mpr hinit⟩

theorem declaration : Yields 1 (n + 1) anywhere (declaration grammar) fun t _ =>
    t.Every .shape ∧ t.isOpen = false ∧ t.isInit = true ∧ everyInit .shape (some t) := by
  have hkind : Yields 1 (n + 1) anywhere declKind fun _ _ => True :=
    yields_of_same Same.tie.symbols.declKind
  refine hkind.bindBehind fun kind => h.declarator.weaken.bind fun d => .fact fun hd => ?_
  refine (many (yields_comma.bind fun _ => h.declarator)).bind fun ds => .fact fun hds => ?_
  have hall : ∀ x ∈ d :: ds, IsIdentifier x.1 ∧ everyOption .shape x.2 :=
    List.forall_mem_cons.mpr ⟨hd, hds⟩
  have hevery : (Stmt.decl kind (d :: ds)).Every .shape :=
    ⟨⟨nofun, fun x hx => (hall x hx).1⟩, everyDeclarator_iff.mpr fun x hx => (hall x hx).2⟩
  exact .pure fun _ _ => ⟨hevery, rfl, rfl, hevery⟩

theorem block : Yields 1 (n + 1) anywhere (block grammar) fun ts _ => everyStmt .shape ts := by
  refine (yields_char '\x7b').bindBehind fun _ => h.stmts.bind fun ts => .fact fun hts => ?_
  exact (yields_mark '\x7d').bind fun _ => .pure fun _ _ => hts

theorem condition : Yields 1 n anywhere (condition grammar) fun e _ => e.Every .shape := by
  refine (yields_mark '(').andThen fun _ => h.value.weaken.bind fun e => .fact fun he => ?_
  exact (yields_mark ')').bind fun _ => .pure fun _ _ => he

theorem ifStmt : Yields 1 (n + 1) anywhere (ifStmt grammar) fun t r =>
    t.Every .shape ∧ (t.isOpen = true → elseTail r = none) := by
  have helse : Yields 1 n anywhere elseTail fun f r =>
      f.Every .shape ∧ (f.isOpen = true → elseTail r = none) :=
    yields_gap.bind fun _ => (yields_keyword rfl).andThen fun _ => h.stmt.weaken
  refine (yields_keyword rfl).bindBehind fun _ => h.condition.weaken.bind fun c => .fact fun hc => ?_
  refine h.stmt.weaken.bind fun t => .given fun ht => ?_
  have hcloses (r : List Char) (hr : t.isOpen = true → elseTail r = none) :
      t.isOpen = false ∨ elseTail r = none := by
    cases hopen : t.isOpen with
    | false => exact .inl rfl
    | true => exact .inr (hr hopen)
  refine (helse.orFails.on hcloses).maybe.bind fun f => ?_
  cases f with
  | none => exact .pure fun _ hr => ⟨⟨trivial, hc, ht, trivial⟩, fun _ => hr.2⟩
  | some f =>
      exact .given fun hclosed => .given fun hf => .pure fun _ hr => ⟨⟨hclosed, hc, ht, hf⟩, hr⟩

theorem whileStmt : Yields 1 (n + 1) anywhere (whileStmt grammar) fun t r =>
    t.Every .shape ∧ (t.isOpen = true → elseTail r = none) := by
  refine (yields_keyword rfl).bindBehind fun _ => h.condition.weaken.bind fun c => .fact fun hc => ?_
  exact h.stmt.weaken.bind fun t => .given fun ht => .pure fun _ hr => ⟨⟨trivial, hc, ht⟩, hr⟩

theorem doStmt : Yields 1 (n + 1) anywhere (doStmt grammar) fun t r =>
    t.Every .shape ∧ (t.isOpen = true → elseTail r = none) := by
  have hsemicolon : Yields 1 n anywhere (do inlineGap; char ';') fun _ _ => True :=
    (yields_of_same (Same.inlineGap n 0)).bind fun _ => yields_char ';'
  refine (yields_keyword rfl).bindBehind fun _ => h.stmt.weaken.bind fun t => .given fun ht => ?_
  refine yields_gap.bind fun _ => (yields_keyword rfl).weaken.bind fun _ => ?_
  refine h.condition.weaken.bind fun c => .fact fun hc => ?_
  refine (hsemicolon.maybeOf (A := fun _ => True)).bind fun _ => ?_
  exact .pure fun _ _ => ⟨⟨trivial, ht, hc⟩, nofun⟩

theorem forStmt : Yields 1 (n + 1) anywhere (forStmt grammar) fun t r =>
    t.Every .shape ∧ (t.isOpen = true → elseTail r = none) := by
  have hinit : Yields 1 n anywhere (forInit grammar) fun t _ =>
      t.isInit = true ∧ everyInit .shape (some t) :=
    .or ((h.declaration.mono (Nat.le_succ n)).imp fun _ _ ht => ht.2.2)
      (.map (h.value.imp fun e _ he => ⟨rfl, he⟩))
  refine (yields_keyword rfl).bindBehind fun _ => (yields_mark '(').bind fun _ => ?_
  refine yields_gap.bind fun _ => (hinit.on fun _ _ => trivial).maybeOf.bind fun init =>
    .fact fun hinit => ?_
  refine (yields_mark ';').bind fun _ => h.value.maybeOf.bind fun test => .fact fun htest => ?_
  refine (yields_mark ';').bind fun _ => h.value.maybeOf.bind fun update => .fact fun hupdate => ?_
  refine (yields_mark ')').bind fun _ => (h.stmt.on fun _ _ => trivial).weaken.bind fun body =>
    .given fun hbody => .pure fun _ hr => ⟨⟨fun t ht => (hinit t ht).1, ?_,
      everyOption_iff.mpr htest, everyOption_iff.mpr hupdate, hbody⟩, hr⟩
  cases init with
  | none => exact trivial
  | some t => exact (hinit t rfl).2

theorem tryStmt : Yields 1 (n + 1) anywhere (tryStmt grammar) fun t r =>
    t.Every .shape ∧ (t.isOpen = true → elseTail r = none) := by
  have hblock := h.block.mono (Nat.le_succ n)
  have hcatch : Yields 1 n anywhere (catchClause grammar) fun c _ =>
      IsIdentifier c.1 ∧ everyStmt .shape c.2 := by
    refine yields_gap.bind fun _ => (yields_keyword rfl).andThen fun _ => ?_
    refine (yields_mark '(').weaken.bind fun _ => yields_gap.bind fun _ => ?_
    refine yields_identifier.weaken.bind fun x => .fact fun hx => ?_
    refine (yields_mark ')').bind fun _ => yields_gap.bind fun _ => ?_
    exact hblock.weaken.bind fun ts => .fact fun hts => .pure fun _ _ => ⟨hx, hts⟩
  have hfinally : Yields 1 n anywhere (finallyClause grammar) fun ts _ => everyStmt .shape ts := by
    refine yields_gap.bind fun _ => (yields_keyword rfl).andThen fun _ => ?_
    exact yields_gap.bind fun _ => hblock.weaken
  refine (yields_keyword rfl).bindBehind fun _ => yields_gap.bind fun _ => ?_
  refine hblock.weaken.bind fun body => .fact fun hbody => ?_
  refine hcatch.maybeOf.bind fun handler => .fact fun hhandler => ?_
  refine hfinally.maybeOf.bind fun finalizer => .fact fun hfinalizer => ?_
  have hevery (hone : handler.isSome = true ∨ finalizer.isSome = true) :
      (Stmt.tryCatch body handler finalizer).Every .shape := by
    refine ⟨⟨hone, fun c hc => (hhandler c hc).1⟩, hbody, ?_, ?_⟩
    · cases handler with
      | none => exact trivial
      | some c => exact (hhandler c rfl).2
    · cases finalizer with
      | none => exact trivial
      | some ts => exact hfinalizer ts rfl
  cases handler with
  | some c => exact .pure fun _ _ => ⟨hevery (.inl rfl), nofun⟩
  | none =>
      cases finalizer with
      | none => exact .failure
      | some ts => exact .pure fun _ _ => ⟨hevery (.inr rfl), nofun⟩

theorem jump : Yields 1 (n + 1) anywhere (jump grammar) fun t _ =>
    t.Every .shape ∧ t.isOpen = false := by
  have hsame : Yields 0 n anywhere sameLine fun _ _ => True := yields_of_same (Same.sameLine n 0)
  refine .or ?_ <| .or ?_ <| .or ?_ ?_
  · exact (yields_keyword rfl).andThen fun _ => .pure fun _ _ => ⟨trivial, rfl⟩
  · exact (yields_keyword rfl).andThen fun _ => .pure fun _ _ => ⟨trivial, rfl⟩
  · refine (yields_keyword rfl).bindBehind fun _ => ?_
    refine (Yields.maybeOf (k := 1) (hsame.bind fun _ => h.value)).bind fun e => .fact fun he => ?_
    exact .pure fun _ _ => ⟨⟨trivial, everyOption_iff.mpr he⟩, rfl⟩
  · refine (yields_keyword rfl).bindBehind fun _ => hsame.bind fun _ => ?_
    exact h.value.weaken.bind fun e => .fact fun he => .pure fun _ _ => ⟨⟨trivial, he⟩, rfl⟩

/-- Where no function is declared, a statement that starts with a named function is none. -/
theorem terminated : Yields 1 (n + 1) (fun s => skipGap s = s ∧ functionDecl grammar s = none)
    (terminated grammar) fun t r => t.Every .shape ∧ (t.isOpen = true → elseTail r = none) := by
  have hlone : Yields 1 (n + 1) (fun s => skipGap s = s ∧ functionDecl grammar s = none)
      (Stmt.expr <$> Grammar.expr grammar) fun t _ => t.Every .shape ∧ t.isOpen = false := by
    refine .each fun s hs => .map ((h.wholeExpr s).imp fun e r he => ⟨⟨trivial, ?_, he.1.1⟩, rfl⟩)
    intro f hf
    obtain ⟨u, hu⟩ := he.1.2 f hf
    rw [hs.1] at hu
    have hdecl := hs.2
    rw [functionDecl, bind_of_some hu] at hdecl
    cases hname : f.name with
    | none => rfl
    | some x =>
        rw [hname] at hdecl
        cases hdecl
  have hend : Yields 0 (n + 1) anywhere stmtEnd fun _ _ => True :=
    yields_of_same (Same.tie.stmtEnd (Same.firm 0))
  refine (Yields.or ((h.declaration.on fun _ _ => trivial).imp fun _ _ ht => ⟨ht.1, ht.2.1⟩)
    (.or (h.jump.on fun _ _ => trivial) hlone)).andThen fun t => .fact fun ht => ?_
  refine hend.bind fun _ => .pure fun _ _ => ⟨ht.1, fun hopen => ?_⟩
  rw [ht.2] at hopen
  cases hopen

theorem wholeStmt : Yields 1 (n + 1) anywhere (Grammar.stmt grammar) fun t r =>
    t.Every .shape ∧ (t.isOpen = true → elseTail r = none) := by
  have hcompound : Yields 1 (n + 1) anywhere (compound grammar) fun t r =>
      t.Every .shape ∧ (t.isOpen = true → elseTail r = none) :=
    .or (.map (h.block.imp fun _ _ hts => ⟨⟨trivial, hts⟩, nofun⟩)) <| .or h.ifStmt <|
      .or h.whileStmt <| .or h.doStmt <| .or h.forStmt h.tryStmt
  have hfunction : Yields 1 (n + 1) anywhere (functionDecl grammar) fun t r =>
      t.Every .shape ∧ (t.isOpen = true → elseTail r = none) := by
    refine h.functionDef.andThen fun f => .fact fun hf => ?_
    split
    next x hname => exact .pure fun _ _ => ⟨⟨⟨by rw [hname]; rfl, hf.1⟩, hf.2⟩, nofun⟩
    next => exact .failure
  refine yields_settle.bind fun _ => .or ?_ ?_
  · exact (yields_char ';').andThen fun _ => .pure fun _ _ => ⟨trivial, nofun⟩
  · exact .or (hcompound.on fun _ _ => trivial) <|
      .orElse (hfunction.on fun _ _ => trivial) h.terminated

end Shapes

theorem shapes (n : Nat) : Shapes n := by
  induction n with
  | zero => exact ⟨nofun, nofun, nofun, nofun⟩
  | succ n h =>
      refine ⟨?_, ?_, ?_, ?_⟩
      · rw [grammar_expr]
        exact .each fun s _ => (h.wholeExpr s).imp fun _ _ he => ⟨he.1.1, he.2⟩
      · rw [grammar_newExpr]
        exact h.newCall
      · rw [grammar_stmt]
        exact h.wholeStmt
      · rw [grammar_stmts]
        exact (many (h.wholeStmt.imp fun _ _ ht => ht.1)).imp fun _ _ hts => everyStmt_iff.mpr hts

end Grammar

theorem Program.shape_of_parse {source : String} {t : Program} (h : parse source = .ok t) :
    everyStmt .shape t := by
  obtain ⟨r, hr, -⟩ := Grammar.ofChars?_eq_ok.mp h
  exact ((Grammar.shapes _).stmts _ (Nat.lt_succ_self _) trivial t r hr).2

end SmallScript
