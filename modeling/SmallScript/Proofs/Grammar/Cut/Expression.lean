import SmallScript.Proofs.Grammar.Cut.Token
import SmallScript.Proofs.Grammar.First

namespace SmallScript.Grammar

open Lexical Scan

variable {α : Type} {k s t r : List Char} {c : Char} {n : Nat}

theorem strict_arrayItems : Strict k 1 n (CutAt k) (CutAt k) (arrayItems grammar) :=
  (strict_opening rfl).andThen fun _ =>
    (strict_inner fun _ H h _ => ((h.expr 0).sepBy H.comma)).bind fun _ =>
    (strict_inner fun _ H _ _ => H.comma.maybe).bind fun _ =>
    (strict_closing rfl).weaken.bind fun _ => .pure _

theorem strict_objectProperties : Strict k 1 n (CutAt k) (CutAt k) (objectProperties grammar) :=
  (strict_opening rfl).andThen fun _ =>
    (strict_inner fun _ H h _ => ((H.property h).sepBy H.comma)).bind fun _ =>
    (strict_inner fun _ H _ _ => H.comma.maybe).bind fun _ =>
    (strict_closing rfl).weaken.bind fun _ => .pure _

theorem strict_parenthesised : Strict k 1 n (CutAt k) (CutAt k) (parenthesised grammar) :=
  strict_bracketed rfl rfl fun _ _ h _ => (h.expr 0).weaken

theorem strict_arguments : Strict k 1 n (CutAt k) (CutAt k) (arguments grammar) :=
  strict_bracketed rfl rfl fun _ H h _ => (h.expr 0).sepBy H.comma

theorem strict_indexSuffix : Strict k 1 n (CutAt k) (CutAt k) (indexSuffix grammar) :=
  strict_bracketed rfl rfl fun _ _ h _ => (h.expr 0).weaken

section

variable (hk : Halt k)

include hk

theorem strict_signature (name : Option String) : Strict k 0 n (CutAt k) (CutAt k) (do
    mark '('
    let params ← sepBy (do gap; identifier) comma
    mark ')'
    mark '\x7b'
    let body ← grammar.stmts
    mark '\x7d'
    return Function.mk name params body) :=
  (strict_markOpening hk rfl).weaken.bind fun _ =>
    (strict_inner fun m H _ _ => (H.behindGap m (H.identifier m)).sepBy H.comma).bind fun _ =>
    (strict_closing rfl).weaken.bind fun _ =>
    (strict_markOpening hk rfl).weaken.bind fun _ =>
    (strict_inner fun _ _ h hd => h.stmts 0 hd).bind fun _ =>
    (strict_closing rfl).weaken.bind fun _ => .pure _

theorem strict_functionDef : Strict k 1 n (CutAt k) (CutAt k) (functionDef grammar) := by
  refine (strict_keyword rfl).andThen fun _ =>
    (strict_behindGap hk strict_identifier).weaken.maybeBind (strict_signature hk) ?_
  intro s t hs hcut hps hpt
  have hnil : Lexical.skip true s = [] :=
    nil_of_lost (Within.symbols.lexemes.identifier (s.length + 1)) (hcut.skip hk true)
      (Nat.lt_succ_of_le (skip_suffix s).length_le) hps hpt
  have hmark : mark '(' s = char '(' (Lexical.skip true s) := rfl
  refine bind_of_none ?_
  rw [hmark, hnil]
  rfl

theorem loose_primary : Loose k Nowhere n (CutAt k) (CutAt k) (primary grammar) :=
  .orElse (strict_functionDef hk).loose.map <| .orElse strict_arrayItems.loose.map <|
    .orElse strict_objectProperties.loose.map <| .orElse strict_parenthesised.loose.map <|
    .orElse (strict_of_symbols fun H _ => H.constant).loose <|
    .orElse strict_quoted.loose.map strict_identifier.loose.map

theorem loose_memberSuffix : Loose k Nowhere n (CutAt k) (CutAt k) (memberSuffix grammar) := by
  refine .orElse ((strict_char rfl).bindLoose fun _ => (strict_gap hk).bindLoose fun _ => ?_)
    strict_indexSuffix.loose
  exact (strict_of_symbols fun H n => H.lexemes.name n).loose.map.on fun _ _ h => h.tied

theorem loose_callSuffix : Loose k Nowhere n (CutAt k) (CutAt k) (callSuffix grammar) :=
  strict_arguments.loose.map.orElse (loose_memberSuffix hk)

theorem loose_member : Loose k Nowhere n (CutAt k) (CutAt k) (member grammar) :=
  (loose_primary hk).bindMany ((strict_gap hk).bindLoose fun _ =>
    (loose_memberSuffix hk).on fun _ _ h => h.tied) takes_memberSuffix
    (.nowhere takes_memberSuffix.shrinks)

theorem loose_newExpr (hnew : Loose k Nowhere n (CutAt k) (CutAt k) grammar.newExpr) :
    Loose k Nowhere (n + 1) (CutAt k) (CutAt k) (newExpr grammar) := by
  refine (strict_keyword rfl).bindBehindLoose fun _ => (strict_gap hk).bindLoose fun _ => ?_
  have harguments := strict_behindGap hk (n := n) strict_arguments
  exact ((hnew.orElse (loose_member hk)).bindMaybe harguments.loose
    (.nowhere harguments.shrinks) fun _ _ => ⟨_, rfl⟩).on fun _ _ h => h.tied

variable (hnew : Loose k Nowhere n (CutAt k) (CutAt k) grammar.newExpr)

include hnew

theorem loose_callExpr : Loose k Nowhere (n + 1) (CutAt k) (CutAt k) (callExpr grammar) :=
  ((loose_newExpr hk hnew).orElse (loose_primary hk)).bindMany ((strict_gap hk).bindLoose fun _ =>
    (loose_callSuffix hk).on fun _ _ h => h.tied) takes_callSuffix
    (.nowhere takes_callSuffix.shrinks)

theorem loose_postfixExpr : Loose k Nowhere (n + 1) (CutAt k) (CutAt k) (postfixExpr grammar) := by
  have hstep : Strict k 1 (n + 1) (CutAt k) (CutAt k) (do inlineGap; stepAfter) :=
    (strict_inlineGap hk).bind fun _ => strict_of_symbols fun H _ => H.stepAfter
  refine (loose_callExpr hk hnew).bindMaybe hstep.loose (.nowhere hstep.shrinks) fun _ op => ?_
  cases op <;> exact ⟨_, rfl⟩

omit hk hnew in
theorem unaryExpr_leading {op : Leading}
    (h : (do let op ← leading; gap; return op : Scan Leading) s = some (op, r)) :
    unaryExpr grammar s = (unaryExpr grammar r).map fun x => (op.apply x.1, x.2) := by
  rw [unaryExpr, bind_apply, bind_apply, many_of_some takes_leading h]
  cases many (do let op ← leading; gap; return op : Scan Leading) r with
  | none => rfl
  | some x =>
      simp only [Option.map_some, Option.bind_some, bind_apply]
      cases postfixExpr grammar x.2 <;> rfl

omit hk hnew in
theorem unaryExpr_bare
    (h : (do let op ← leading; gap; return op : Scan Leading) s = none) :
    unaryExpr grammar s = postfixExpr grammar s := by
  rw [unaryExpr, bind_of_some (many_of_none h), bind_apply]
  cases postfixExpr grammar s <;> rfl

theorem loose_unaryExpr : Loose k Nowhere (n + 1) (CutAt k) (CutAt k) (unaryExpr grammar) := by
  have hpostfix := loose_postfixExpr hk hnew
  have hleading : Strict k 1 (n + 1) (CutAt k) (CutAt k) leading :=
    strict_of_symbols fun H _ => H.leading
  have hprefix : Strict k 1 (n + 1) (CutAt k) (CutAt k)
      (do let op ← leading; gap; return op : Scan Leading) :=
    hleading.andThen fun op => ((strict_gap hk).imp (fun _ _ h => h.tied) (Nat.le_refl 0)).bind
      fun _ => .pure op
  have hshrinks : Shrinks (unaryExpr grammar) :=
    hprefix.shrinks.many.bind fun _ => hpostfix.shrinks.bind fun _ => .pure _
  refine ⟨hshrinks, fun s t hs hcut => ?_⟩
  induction hl : s.length using Nat.strongRecOn generalizing s t with
  | ind l ih =>
    subst hl
    rcases hprefix.reads s t hs hcut with ⟨hps, hpt⟩ | ⟨op, u, u', hu, hu', hkept⟩
    · cases hread : (do let op ← leading; gap; return op : Scan Leading) t with
      | none =>
          rw [unaryExpr_bare hps, unaryExpr_bare hread]
          exact hpostfix.reads s t hs hcut
      | some x =>
          -- the prefix stands behind the joint, and nothing in front of it
          have hlead : leading s = none := by
            cases h : leading s with
            | none => rfl
            | some y =>
                rw [bind_of_some h] at hps
                cases hps
          have hnil : s = [] := nil_of_lost Within.symbols.leading hcut hs hlead fun h => by
            rw [bind_of_none h] at hread
            cases hread
          subst hnil
          cases hfull : unaryExpr grammar t with
          | none => exact .inl ⟨rfl, rfl⟩
          | some y =>
              rw [unaryExpr_leading hread, Option.map_eq_some_iff] at hfull
              obtain ⟨z, hz, rfl⟩ := hfull
              exact .inr (.inl ⟨_, z.2, rfl,
                .inl (Nat.lt_of_le_of_lt (hshrinks x.2 _ _ hz) (hpt _ _ hread))⟩)
    · rw [unaryExpr_leading hu, unaryExpr_leading hu']
      have hlength := hkept.left
      rcases ih u.length (by omega) u u' (by omega) hkept.rest rfl with
        ⟨hfail, hfail'⟩ | ⟨e, r, hr, hlost⟩ | ⟨e, r, r', hr, hr', hkept'⟩
      · exact .inl ⟨by rw [hfail]; rfl, by rw [hfail']; rfl⟩
      · exact .inr (.inl ⟨_, r, by rw [hr]; rfl, hlost⟩)
      · exact .inr (.inr ⟨_, r, r', by rw [hr]; rfl, by rw [hr']; rfl, hkept.behind hkept'⟩)

omit hnew in
theorem loose_tailOf {level : List Infix} (hlevel : level ∈ levels) {p : Scan Expr}
    (hp : Loose k Nowhere n (CutAt k) (CutAt k) p) :
    Loose k Nowhere n (CutAt k) (CutAt k) (tailOf level p) :=
  (strict_gap hk).bindLoose fun _ => (strict_operatorOf hlevel).bindLoose fun _ =>
    (strict_gap hk).bindLoose fun _ => (hp.on fun _ _ h => h.tied).bindPure

omit hnew in
theorem loose_binaryLevel {level : List Infix} (hlevel : level ∈ levels) {p : Scan Expr}
    (hp : Loose k Nowhere n (CutAt k) (CutAt k) p) :
    Loose k Nowhere n (CutAt k) (CutAt k) (binaryLevel p level) := by
  have htakes : Takes (tailOf level p) :=
    .behind shrinks_gap fun _ => (takes_operatorOf level).bind fun _ =>
      shrinks_gap.bind fun _ => hp.shrinks.bind fun _ => .pure _
  exact hp.bindMany (loose_tailOf hk hlevel hp) htakes (.nowhere htakes.shrinks)

theorem loose_binaryExpr : Loose k Nowhere (n + 1) (CutAt k) (CutAt k) (binaryExpr grammar) := by
  have hlevels (ls : List (List Infix)) (hls : ∀ level ∈ ls, level ∈ levels) {p : Scan Expr}
      (hp : Loose k Nowhere (n + 1) (CutAt k) (CutAt k) p) :
      Loose k Nowhere (n + 1) (CutAt k) (CutAt k) (ls.foldl binaryLevel p) := by
    induction ls generalizing p with
    | nil => exact hp
    | cons level ls ih =>
        exact ih (fun l hl => hls l (List.mem_cons_of_mem level hl))
          (loose_binaryLevel hk (hls level List.mem_cons_self) hp)
  exact hlevels levels (fun _ hl => hl) (loose_unaryExpr hk hnew)

end

/-- The text starts with a question mark, and `k` stands behind it. -/
def AtQuestion (k r : List Char) : Prop := ∃ u, skipGap r = '?' :: u ∧ k.length ≤ u.length

theorem strays_question {p : Scan α} (hp : Shrinks p)
    (hmark : ∀ r u, skipGap r = '?' :: u → p r = none) : Strays k (AtQuestion k) p :=
  .of_shrinks hp fun r ⟨u, hu, _⟩ => hmark r u hu

theorem mark_of_question {u : List Char} (hc : '?' ≠ c) (hr : skipGap r = '?' :: u) :
    mark c r = none := by
  have hmark : mark c r = char c (skipGap r) := rfl
  rw [hmark, hr, char, if_neg hc]

section

variable (hk : Halt k) (hexpr : Loose k (AtQuestion k) n (CutAt k) (CutAt k) grammar.expr)

include hk hexpr

theorem keeps_branches : Keeps k (AtQuestion k) (n + 1) (CutAt k) (CutAt k) (branches grammar) := by
  refine (strict_mark hk rfl).bindBehindKeeps fun _ => ?_
  have hrest (t : Expr) : Keeps k (AtQuestion k) n (CutAt k) (CutAt k)
      (do mark ':'; let f ← grammar.expr; return (t, f)) :=
    (strict_mark hk rfl).bindKeeps fun _ => hexpr.bindPure.keeps
  exact hexpr.keeps.bind hrest fun t => strays_question (hrest t).shrinks fun r u hr =>
    bind_of_none (mark_of_question (by decide) hr)

theorem loose_branches :
    Loose k (AtQuestion k) (n + 1) (CutAt k) (CutAt k) (maybe (branches grammar)) := by
  have hkeeps := keeps_branches hk hexpr
  refine ⟨hkeeps.shrinks.maybe, fun s t hs hcut => ?_⟩
  cases hfull : branches grammar t with
  | some x =>
      rw [maybe_of_some hfull]
      rcases hkeeps.reads s t hs hcut _ _ hfull with hlost | ⟨r, hr, hkept⟩
      · exact .inr (.inl ⟨_, _, rfl, hlost⟩)
      · exact .inr (.inr ⟨_, r, _, maybe_of_some hr, rfl, hkept⟩)
  | none =>
      rw [maybe_of_none hfull]
      cases hcutread : branches grammar s with
      | none =>
          rw [maybe_of_none hcutread]
          exact .inr (.inr ⟨none, s, t, rfl, rfl, hcut, Nat.le_refl _, Nat.le_refl _⟩)
      | some x =>
          obtain ⟨_, u, hu, -⟩ := bind_eq_some hcutread
          have hquestion : skipGap s = '?' :: u := eq_cons_of_char hu
          have hskip := (hcut.skip hk true).append
          refine .inr (.inl ⟨none, t, rfl, .inr ⟨u ++ k, ?_, ?_⟩⟩)
          · exact hskip.trans (congrArg (· ++ k) hquestion)
          · rw [List.length_append]
            omega

variable (hnew : Loose k Nowhere n (CutAt k) (CutAt k) grammar.newExpr)

include hnew

theorem loose_conditional :
    Loose k (AtQuestion k) (n + 1) (CutAt k) (CutAt k) (conditional grammar) := by
  have hbranches := loose_branches hk hexpr
  have htotal (s : List Char) : maybe (branches grammar) s ≠ none := by
    rw [maybe_apply]
    exact nofun
  refine (loose_binaryExpr hk hnew).bindTwo hbranches (.nowhere hbranches.shrinks htotal)
    fun test b => ?_
  cases b <;> exact ⟨_, rfl⟩

theorem loose_assignment :
    Loose k (AtQuestion k) (n + 1) (CutAt k) (CutAt k) (assignment grammar) := by
  have hvalue : Loose k (AtQuestion k) (n + 1) (CutAt k) (CutAt k)
      (do gap; let op ← assignOp; let e ← grammar.expr; return (op, e)) :=
    (strict_gap hk).bindLoose fun _ => strict_assignOp.bindBehindLoose fun _ => hexpr.bindPure
  have hstrays := strays_question (k := k) hvalue.shrinks fun r u hr => by
    have hgap : gap r = some ((), '?' :: u) := congrArg (fun r => some ((), r)) hr
    rw [bind_of_some hgap]
    rfl
  refine (loose_conditional hk hexpr hnew).bindMaybe hvalue hstrays fun target b => ?_
  cases b <;> exact ⟨_, rfl⟩

theorem loose_expr : Loose k (AtQuestion k) (n + 1) (CutAt k) (CutAt k) (expr grammar) :=
  (strict_gap hk).bindLoose fun _ => (loose_assignment hk hexpr hnew).on fun _ _ h => h.tied

omit hnew in
theorem loose_declarator : Loose k (AtQuestion k) n (CutAt k) (CutAt k) (declarator grammar) := by
  have hvalue : Loose k (AtQuestion k) n (CutAt k) (CutAt k) (do mark '='; grammar.expr) :=
    (strict_mark hk rfl).bindLoose fun _ => hexpr
  exact (strict_gap hk).bindLoose fun _ => (strict_identifier.on fun _ _ h => h.tied).bindLoose
    fun _ => hvalue.maybe.bindPure

omit hnew in
theorem loose_declaration :
    Loose k (AtQuestion k) (n + 1) (CutAt k) (CutAt k) (declaration grammar) := by
  have hdeclarator := loose_declarator hk hexpr
  have hnext : Loose k (AtQuestion k) n (CutAt k) (CutAt k) (do comma; declarator grammar) :=
    (strict_mark hk rfl).bindLoose fun _ => hdeclarator
  have htakes : Takes (do comma; declarator grammar) :=
    .bind (.behind shrinks_gap fun _ => .char ',') fun _ => hdeclarator.shrinks
  refine (strict_of_symbols fun H _ => H.declKind).bindBehindLoose fun _ => ?_
  exact hdeclarator.bindMany hnext htakes (strays_question hnext.shrinks fun r u hr =>
    bind_of_none (mark_of_question (by decide) hr))

omit hnew in
theorem loose_jump : Loose k (AtQuestion k) (n + 1) (CutAt k) (CutAt k) (jump grammar) := by
  have hoperand : Loose k (AtQuestion k) n (CutAt k) (CutAt k) (do sameLine; grammar.expr) :=
    (strict_sameLine hk).bindLoose fun _ => hexpr
  refine .orElse ((strict_keyword rfl).bindLoose fun _ => .pure _) <|
    .orElse ((strict_keyword rfl).bindLoose fun _ => .pure _) <|
    .orElse ((strict_keyword rfl).bindBehindLoose fun _ => hoperand.maybe.bindPure) ?_
  exact (strict_keyword rfl).bindBehindLoose fun _ => (strict_sameLine hk).bindLoose fun _ =>
    hexpr.bindPure

end

end SmallScript.Grammar
