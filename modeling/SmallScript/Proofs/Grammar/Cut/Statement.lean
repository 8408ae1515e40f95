import SmallScript.Proofs.Grammar.Cut.Expression
import SmallScript.Proofs.Grammar.Reserved

namespace SmallScript.Grammar

open Lexical Scan

variable {α β : Type} {k s t r : List Char} {n : Nat} {E : List Char → Prop}

/-- The text starts with the other branch of an `if`, which is not read to its end, and `k` stands
behind the keyword. -/
def AtElse (k r : List Char) : Prop :=
  (∃ u, keyword "else" (skipGap r) = some ((), u) ∧ k.length ≤ u.length) ∧ elseTail r = none

/-- No statement starts with the text, and `k` stands behind its first token. -/
def Stuck (k r : List Char) : Prop := AtQuestion k r ∨ AtElse k r

theorem Stuck.fails (h : Stuck k r) : stmt grammar r = none ∧ k.length < (skipGap r).length := by
  rcases h with ⟨u, hu, hlength⟩ | ⟨⟨u, hu, hlength⟩, -⟩
  · rw [hu]
    exact ⟨stmt_question hu, Nat.lt_succ_of_le hlength⟩
  · rw [← stmt_skipGap]
    have htakes : Takes (keyword "else") :=
      .bind (.text (by decide)) fun _ => .notNext _
    exact ⟨stmt_else (skip_skip r) hu, Nat.lt_of_le_of_lt hlength (htakes _ _ _ hu)⟩

/-- The other branch of an `if` is left out where it cannot be read. -/
theorem elseTail_stuck (h : Stuck k r) : elseTail r = none := by
  rcases h with ⟨u, hu, -⟩ | ⟨-, h⟩
  · have hgap : gap r = some ((), '?' :: u) := congrArg (fun r => some ((), r)) hu
    rw [elseTail, bind_of_some hgap]
    exact bind_of_none ((keyword_first rfl).cons rfl)
  · exact h

theorem while_stuck {f : Unit → Scan α} (h : Stuck k r) :
    (do gap; keyword "while" >>= f) r = none := by
  have hgap : gap r = some ((), skipGap r) := rfl
  rw [bind_of_some hgap]
  refine bind_of_none ?_
  rcases h with ⟨u, hu, -⟩ | ⟨⟨u, hu, -⟩, -⟩
  · rw [hu]
    exact (keyword_first rfl).cons rfl
  · exact keyword_of_ne ((keyword_eq_some_iff rfl).mp hu) rfl (by decide)

theorem takes_atLineEnd : Takes atLineEnd := by
  intro s a r h
  obtain ⟨c, rfl, -⟩ := eq_of_atLineEnd h
  exact Nat.lt_succ_self _

theorem takes_blockComment : Takes blockComment := by
  intro s a r h
  obtain ⟨u, rfl, hu⟩ := eq_of_blockComment h
  exact Nat.lt_succ_of_le (Nat.le_succ_of_le (blockEnd_suffix hu).length_le)

theorem strict_block : Strict k 1 n (CutAt k) (CutAt k) (block grammar) :=
  strict_bracketed rfl rfl fun _ _ h hd => h.stmts 0 hd

theorem strict_atLineEnd : Strict k 1 n (CutAt k) (CutAt k) atLineEnd := by
  refine strict_of_token (fun _ _ h => h) ?_ takes_atLineEnd
  rintro s t - ⟨hcut, hs⟩
  obtain ⟨c, r, rfl⟩ := List.exists_cons_of_ne_nil hs
  rw [hcut.append, List.cons_append, atLineEnd_cons, atLineEnd_cons]
  cases hline : isLineEnd c with
  | true =>
      exact .inr ⟨(), r, r ++ k, rfl, rfl,
        ⟨rfl, hcut.joins.behind_blank (isGapBlank_of_isLineEnd hline)⟩, Nat.le_refl _, Nat.le_refl _⟩
  | false => exact .inl ⟨rfl, rfl⟩

theorem strict_blockComment : Strict k 1 n (CutAt k) (CutAt k) blockComment := by
  refine strict_of_token (fun _ _ h => h) ?_ takes_blockComment
  rintro s t - ⟨hcut, hs⟩
  rw [hcut.append]
  cases s using front_cases with
  | nil => exact (hs rfl).elim
  | line r => exact .inl ⟨rfl, rfl⟩
  | closed r r' hr =>
      obtain ⟨u, hu, hjoins⟩ := hcut.joins.behind_block
      cases hr.symm.trans hu
      rw [List.cons_append, List.cons_append, blockComment_block, blockComment_block, hr,
        blockEnd_append hr]
      have hlength := (blockEnd_suffix hr).length_le
      refine .inr ⟨(), r', r' ++ k, rfl, rfl, ⟨rfl, hjoins⟩, ?_, ?_⟩
      · simp only [List.length_cons]
        omega
      · simp only [List.length_cons, List.length_append]
        omega
  | unclosed r hr =>
      obtain ⟨u, hu, -⟩ := hcut.joins.behind_block
      cases hr.symm.trans hu
  | code c r hc =>
      rw [List.cons_append, blockComment_cons hc, blockComment_cons (hcut.joins.noComment_append hc)]
      exact .inl ⟨rfl, rfl⟩

theorem lineBreak_skipGap {a : Unit} (h : (atLineEnd <|> blockComment : Scan Unit) s = some (a, r)) :
    skipGap s = skipGap r := by
  rw [orElse_apply, Option.or_eq_some_iff] at h
  rcases h with h | ⟨-, h⟩
  · obtain ⟨c, rfl, hline⟩ := eq_of_atLineEnd h
    exact skip_blank (isGapBlank_of_isLineEnd hline) r
  · obtain ⟨u, rfl, hu⟩ := eq_of_blockComment h
    rw [skipGap, ← Lexical.skip, skip_block, hu]
    rfl

/-- In front of a token that a statement does not end at, there is only the gap it ends with. -/
theorem stmtEnd_skipGap {c : Char} {u : List Char} {a : Unit} (hs : skipGap s = c :: u)
    (hc : c ≠ ';' ∧ c ≠ '\x7d') (h : stmtEnd s = some (a, r)) : skipGap r = skipGap s := by
  have hgap : gap s = some ((), skipGap s) := rfl
  have hinline : inlineGap s = some ((), skipInlineGap s) := rfl
  have hskip : skipGap (skipInlineGap s) = skipGap s := skip_inline_skip s
  rw [stmtEnd, orElse_apply, orElse_apply, orElse_apply, bind_of_some hinline, bind_of_some hinline,
    bind_of_some hgap, bind_of_some hgap, hs, beforeBrace, if_neg hc.2, endOfText, Option.or_none,
    Option.or_none, Option.or_eq_some_iff] at h
  rcases h with h | ⟨-, h⟩
  · rw [eq_cons_of_char h, hs] at hskip
    cases hskip
    exact (hc.1 rfl).elim
  · rw [← hskip, lineBreak_skipGap h]

section

variable (hk : Halt k)

include hk

theorem strict_condition : Strict k 1 n (CutAt k) (CutAt k) (condition grammar) :=
  strict_behindGap hk (strict_bracketed rfl rfl fun _ _ h _ => (h.expr 0).weaken)

theorem strict_catchClause : Strict k 0 n (CutAt k) (CutAt k) (catchClause grammar) :=
  (strict_gap hk).bind fun _ =>
    ((strict_keyword rfl).on fun _ _ h => h.tied).weaken.bind fun _ =>
    (strict_markOpening hk rfl).weaken.bind fun _ =>
    (strict_inner fun m H _ _ => H.overGap m).bind fun _ =>
    (strict_inner fun m H _ _ => (H.identifier m).weaken).bind fun _ =>
    (strict_closing rfl).weaken.bind fun _ =>
    (strict_gap hk).bind fun _ =>
    (strict_block.on fun _ _ h => h.tied).weaken.bind fun _ => .pure _

theorem strict_finallyClause : Strict k 0 n (CutAt k) (CutAt k) (finallyClause grammar) :=
  (strict_gap hk).bind fun _ =>
    ((strict_keyword rfl).on fun _ _ h => h.tied).weaken.bind fun _ =>
    (strict_gap hk).bind fun _ => (strict_block.on fun _ _ h => h.tied).weaken

theorem loose_tryStmt : Loose k Nowhere n (CutAt k) (CutAt k) (tryStmt grammar) := by
  have hcatch := strict_catchClause hk (n := n)
  have hfinally := strict_finallyClause hk (n := n)
  refine (strict_keyword rfl).bindLoose fun _ => (strict_gap hk).bindLoose fun _ =>
    (strict_block.on fun _ _ h => h.tied).bindLoose fun body => ?_
  refine hcatch.loose.maybeBind (fun handler => ?_) fun handler => ?_
  · cases handler with
    | none =>
        refine hfinally.loose.maybeBind (fun finalizer => ?_) fun finalizer => .pure _
        cases finalizer with
        | none => exact (Strict.of_follows (j := 0) .failure .failure).loose
        | some b => exact .pure _
    | some h => exact hfinally.loose.maybe.bindPure
  · exact (Drifts.maybe (.nowhere hfinally.shrinks)).bindPure

theorem loose_functionDecl : Loose k E n (CutAt k) (CutAt k) (functionDecl grammar) := by
  refine (strict_functionDef hk).bindLoose fun f => ?_
  cases f.name with
  | none => exact (Strict.of_follows (j := 0) .failure .failure).loose
  | some x => exact .pure _

theorem keeps_boundary : Keeps k E n (CutAt k) (CutAt k)
    ((do gap; beforeBrace) <|> (do gap; endOfText)) where
  shrinks := by
    refine .orElse (shrinks_gap.bind fun _ => ?_) (shrinks_gap.bind fun _ => ?_)
    · intro s a r h
      cases s with
      | nil => cases h
      | cons c s =>
          rw [beforeBrace, Option.ite_none_right_eq_some] at h
          cases h.2
          exact Nat.le_refl _
    · intro s a r h
      cases s with
      | nil => cases h; exact Nat.le_refl _
      | cons => cases h
  reads s t hs hcut a r' hr := by
    have hgap (s : List Char) : gap s = some ((), skipGap s) := rfl
    have hskip : CutAt k (skipGap s) (skipGap t) := hcut.skip hk true
    have hleft : (skipGap s).length ≤ s.length := (skip_suffix s).length_le
    have hright : (skipGap t).length ≤ t.length := (skip_suffix t).length_le
    rw [orElse_apply, bind_of_some (hgap t), bind_of_some (hgap t), hskip.append] at hr
    rw [orElse_apply, bind_of_some (hgap s), bind_of_some (hgap s)]
    rw [hskip.append] at hright
    refine .inr ?_
    cases hnil : skipGap s with
    | nil =>
        rw [hnil] at hr hright
        obtain ⟨c, u, hcons⟩ := List.exists_cons_of_ne_nil hk.ne
        have hr' : r' = k := by
          rw [List.nil_append, hcons, beforeBrace, endOfText, Option.or_none,
            Option.ite_none_right_eq_some] at hr
          cases hr.2
          exact hcons.symm
        subst hr'
        exact ⟨[], rfl, cutAt_nil r', Nat.zero_le _, hright⟩
    | cons c u =>
        rw [hnil] at hr hright hleft hskip
        rw [List.cons_append, beforeBrace, endOfText, Option.or_none,
          Option.ite_none_right_eq_some] at hr
        obtain ⟨hc, heq⟩ := hr
        cases heq
        refine ⟨c :: u, ?_, ⟨rfl, hskip.joins⟩, hleft, hright⟩
        rw [beforeBrace, if_pos hc]
        rfl

theorem keeps_stmtEnd : Keeps k E n (CutAt k) (CutAt k) stmtEnd := by
  refine ((strict_inlineGap hk).bindLoose fun _ => strict_semicolon.loose).orKeeps ?_
  refine ((strict_inlineGap hk).bindLoose fun _ => ?_).orKeeps (keeps_boundary hk)
  exact strict_atLineEnd.loose.orElse strict_blockComment.loose

variable (hexpr : Loose k (AtQuestion k) n (CutAt k) (CutAt k) grammar.expr)
  (hnew : Loose k Nowhere n (CutAt k) (CutAt k) grammar.newExpr)

include hexpr hnew in
theorem keeps_terminated :
    Keeps k (AtQuestion k) (n + 1) (CutAt k) (CutAt k) (terminated grammar) := by
  have hstmtEnd {n : Nat} : Keeps k (AtQuestion k) n (CutAt k) (CutAt k) stmtEnd := keeps_stmtEnd hk
  have hhead := (loose_declaration hk hexpr).orElse
    ((loose_jump hk hexpr).orElse ((loose_expr hk hexpr hnew).map (f := Stmt.expr)))
  refine hhead.keeps.bind (fun head => hstmtEnd.bindPure) fun head => ?_
  rintro s b r (hshort | ⟨u, hu, hlength⟩) hr
  · exact .inl (Nat.lt_of_le_of_lt ((hstmtEnd (n := 0)).bindPure.shrinks s b r hr) hshort)
  · obtain ⟨_, v, hv, hr⟩ := bind_eq_some hr
    cases hr
    exact .inr ⟨u, (stmtEnd_skipGap hu (by decide) hv).trans hu, hlength⟩

variable (hstmt : Keeps k (Stuck k) n (CutAt k) (CutAt k) grammar.stmt)

include hstmt

theorem keeps_whileStmt : Keeps k (Stuck k) (n + 1) (CutAt k) (CutAt k) (whileStmt grammar) :=
  (strict_keyword rfl).bindBehindKeeps fun _ => (strict_condition hk).bindKeeps fun _ =>
    hstmt.bindPure

theorem keeps_doStmt : Keeps k (Stuck k) (n + 1) (CutAt k) (CutAt k) (doStmt grammar) := by
  refine (strict_keyword rfl).bindBehindKeeps fun _ => ?_
  have hrest (body : Stmt) : Loose k (Stuck k) n (CutAt k) (CutAt k) (do
      gap
      keyword "while"
      let test ← condition grammar
      let _ ← maybe (do inlineGap; char ';')
      return Stmt.doWhile body test) :=
    (strict_gap hk).bindLoose fun _ => ((strict_keyword rfl).on fun _ _ h => h.tied).bindLoose
      fun _ => (strict_condition hk).bindLoose fun _ =>
      ((strict_inlineGap hk).bindLoose fun _ => strict_semicolon.loose).maybe.bindPure
  exact hstmt.bind (fun body => (hrest body).keeps) fun body =>
    .of_shrinks (hrest body).shrinks fun _ => while_stuck

theorem keeps_forStmt : Keeps k (Stuck k) (n + 1) (CutAt k) (CutAt k) (forStmt grammar) := by
  refine (strict_keyword rfl).bindBehindKeeps fun _ =>
    (strict_markOpening hk rfl).bindKeeps fun _ =>
    (strict_inner fun m H _ _ => H.overGap m).bindKeeps fun _ =>
    (strict_inner fun m H h _ => (H.forInit h).maybe).bindKeeps fun _ => ?_
  have hsemicolon : Strict k 0 n (Inner k) (Inner k) (mark ';') :=
    strict_inner fun m H _ hd => (H.markSemicolon m hd).weaken
  have hpart : Strict k 0 n (Inner k) (Inner k) (maybe grammar.expr) :=
    strict_inner fun _ _ h _ => (h.expr 0).maybe
  exact hsemicolon.bindKeeps fun _ => hpart.bindKeeps fun _ => hsemicolon.bindKeeps fun _ =>
    hpart.bindKeeps fun _ => (strict_closing rfl).bindKeeps fun _ => hstmt.bindPure

/-- The other branch may be read of the cut text and not of the whole one, but not the other way. -/
theorem keeps_elseTail : Keeps k (Stuck k) n (CutAt k) (CutAt k) (maybe elseTail) := by
  have hkeyword {n : Nat} : Strict k 1 n (CutAt k) (CutAt k) (do gap; keyword "else") :=
    strict_behindGap hk (strict_keyword rfl)
  have htail : Keeps k (Stuck k) n (CutAt k) (CutAt k) elseTail :=
    (strict_gap hk).bindKeeps fun _ =>
      ((strict_keyword rfl).on fun _ _ h => h.tied).bindKeeps fun _ => hstmt
  refine ⟨htail.shrinks.maybe, fun s t hs hcut f r' hr => ?_⟩
  cases hfull : elseTail t with
  | some x =>
      rw [maybe_of_some hfull] at hr
      cases hr
      rcases htail.reads s t hs hcut _ _ hfull with hlost | ⟨r, hr, hkept⟩
      · exact .inl hlost
      · exact .inr ⟨r, maybe_of_some hr, hkept⟩
  | none =>
      rw [maybe_of_none hfull] at hr
      cases hr
      cases hread : elseTail s with
      | none => exact .inr ⟨s, maybe_of_none hread, hcut, Nat.le_refl _, Nat.le_refl _⟩
      | some x =>
          -- the keyword is there in both texts, so it is the branch that is missed behind it
          obtain ⟨_, v, hv, hread⟩ := bind_eq_some hread
          obtain ⟨_, u, hu, -⟩ := bind_eq_some hread
          have hword : (do gap; keyword "else") s = some ((), u) := by rw [bind_of_some hv, hu]
          rcases hkeyword.reads s t hs hcut with ⟨hfail, -⟩ | ⟨_, w, w', hw, hw', hkept⟩
          · cases hword.symm.trans hfail
          · obtain ⟨_, v', hv', hw'⟩ := bind_eq_some hw'
            cases hv'
            refine .inl (.inr (.inr ⟨⟨w', hw', ?_⟩, hfull⟩))
            rw [hkept.rest.append, List.length_append]
            omega

theorem keeps_ifStmt : Keeps k (Stuck k) (n + 1) (CutAt k) (CutAt k) (ifStmt grammar) := by
  refine (strict_keyword rfl).bindBehindKeeps fun _ => (strict_condition hk).bindKeeps fun test => ?_
  have hother := keeps_elseTail hk hstmt
  show Keeps k (Stuck k) n (CutAt k) (CutAt k) (do
    let t ← grammar.stmt
    let f ← maybe elseTail
    return Stmt.ifElse test t f)
  refine hstmt.bind (fun body => hother.bindPure) fun body => ?_
  rintro s a r (hshort | hstuck) hr
  · exact .inl (Nat.lt_of_le_of_lt (hother.bindPure.shrinks s a r hr) hshort)
  · rw [bind_of_some (maybe_of_none (elseTail_stuck hstuck))] at hr
    cases hr
    exact .inr hstuck

end

/-- A statement starts with the same word in both texts, or with that word in neither. -/
theorem keyword_or_none {w : String} (hw : isPlain w = true) {p : Scan Stmt}
    (hp : Keeps k E n (CutAt k) (CutAt k) p)
    (hrule : ∀ {s r : List Char} {u : Unit}, skipGap s = s → keyword w s = some (u, r) →
      stmt grammar s = p s)
    (hs : s.length < n) (hcut : Within k s t) (hstop : skipGap s = s ∧ skipGap t = t) :
    (∀ a r', stmt grammar t = some (a, r') →
      Lost k E r' ∨ ∃ r, stmt grammar s = some (a, r) ∧ Kept 0 (CutAt k) s t r r') ∨
      keyword w s = none ∧ keyword w t = none := by
  rcases Within.symbols.keyword n hw s t hs hcut with hfail | ⟨_, u, u', hu, hu', -⟩
  · exact .inr hfail
  · rw [hrule hstop.1 hu, hrule hstop.2 hu']
    exact .inl fun a r' hr => hp.reads s t hs hcut.toCutAt a r' hr

section

variable (hk : Halt k) (hexpr : Loose k (AtQuestion k) n (CutAt k) (CutAt k) grammar.expr)
  (hnew : Loose k Nowhere n (CutAt k) (CutAt k) grammar.newExpr)

include hk hexpr hnew

theorem keeps_flat : Keeps k (Stuck k) (n + 1) (CutAt k) (CutAt k)
    ((do char ';'; return Stmt.empty) <|> (Stmt.block <$> block grammar <|> tryStmt grammar) <|>
      functionDecl grammar <|> terminated grammar) := by
  refine (strict_semicolon.bindLoose fun _ => .pure _).orKeeps ?_
  refine (strict_block.loose.map.orElse ((loose_tryStmt hk).imp fun _ => nofun)).orKeeps ?_
  exact (loose_functionDecl hk).orKeeps ((keeps_terminated hk hexpr hnew).imp fun _ => .inl)

theorem keeps_stmt (hstmt : Keeps k (Stuck k) n (CutAt k) (CutAt k) grammar.stmt) :
    Keeps k (Stuck k) (n + 1) (CutAt k) (CutAt k) (stmt grammar) := by
  have hrested : Keeps k (Stuck k) (n + 1) (Rested (CutAt k)) (CutAt k) (stmt grammar) := by
    refine ⟨stmt_takes.shrinks, fun s t hs ⟨hcut, hstop⟩ => ?_⟩
    by_cases hnil : s = []
    · subst hnil
      intro a r' hr
      cases hk.stmt.symm.trans (hcut.nil ▸ hr)
    have hwithin : Within k s t := ⟨hcut, .inl hnil⟩
    have hstops : skipGap s = s ∧ skipGap t = t :=
      ⟨hstop, (hcut.skip hk true).append.trans (by rw [hcut.append]; exact congrArg (· ++ k) hstop)⟩
    rcases keyword_or_none rfl (keeps_ifStmt hk hstmt) stmt_if hs hwithin hstops with
      hif | ⟨hif, hif'⟩
    · exact hif
    rcases keyword_or_none rfl (keeps_whileStmt hk hstmt) stmt_while hs hwithin hstops with
      hwhile | ⟨hwhile, hwhile'⟩
    · exact hwhile
    rcases keyword_or_none rfl (keeps_doStmt hk hstmt) stmt_do hs hwithin hstops with
      hdo | ⟨hdo, hdo'⟩
    · exact hdo
    rcases keyword_or_none rfl (keeps_forStmt hk hstmt) stmt_for hs hwithin hstops with
      hfor | ⟨hfor, hfor'⟩
    · exact hfor
    rw [stmt_flat hstops.1 hif hwhile hdo hfor, stmt_flat hstops.2 hif' hwhile' hdo' hfor']
    exact (keeps_flat hk hexpr hnew).reads s t hs hcut
  have hgap : stmt grammar = (do gap; stmt grammar) := funext fun s => (stmt_skipGap s).symm
  rw [hgap]
  exact (strict_gap hk).bindKeeps fun _ => hrested

end

/-- A statement of the whole text is one of the cut text, if statements lead from there to `k`. -/
theorem grammar_keeps (hk : Halt k) (n : Nat) :
    Loose k (AtQuestion k) n (CutAt k) (CutAt k) grammar.expr ∧
      Loose k Nowhere n (CutAt k) (CutAt k) grammar.newExpr ∧
      Keeps k (Stuck k) n (CutAt k) (CutAt k) grammar.stmt := by
  induction n with
  | zero =>
      have hexpr : Takes grammar.expr := takes_of_follows fun n => (grammar_follow n).expr 0
      have hnew : Takes grammar.newExpr := takes_of_follows fun n => (grammar_follow n).newExpr 0
      rw [grammar_stmt]
      exact ⟨⟨hexpr.shrinks, fun _ _ => nofun⟩, ⟨hnew.shrinks, fun _ _ => nofun⟩,
        ⟨stmt_takes.shrinks, fun _ _ => nofun⟩⟩
  | succ n ih =>
      obtain ⟨hexpr, hnew, hstmt⟩ := ih
      refine ⟨?_, ?_, ?_⟩
      · rw [grammar_expr]
        exact loose_expr hk hexpr hnew
      · rw [grammar_newExpr]
        exact loose_newExpr hk hnew
      · rw [grammar_stmt]
        exact keeps_stmt hk hexpr hnew hstmt

end SmallScript.Grammar
