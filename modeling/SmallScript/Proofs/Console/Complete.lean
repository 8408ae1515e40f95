import SmallScript.Proofs.Console.Joined
import SmallScript.Proofs.Grammar.Reserved
import SmallScript.Proofs.Grammar.Shape

namespace SmallScript.Console

open Lexical Grammar Scan

def Extended (s t : List Char) : Prop := t = s ∨ t = s ++ [';']

section

variable {d n : Nat} {c : Char} {s t r : List Char}

theorem Extended.refl (s : List Char) : Extended s s := .inl rfl

theorem extended_append (w : List Char) (h : Extended (w ++ s) t) :
    ∃ r, t = w ++ r ∧ Extended s r := by
  rcases h with rfl | rfl
  · exact ⟨s, rfl, .inl rfl⟩
  · exact ⟨s ++ [';'], List.append_assoc .., .inr rfl⟩

theorem noComment_extended (hc : NoComment c r) (h : Extended r s) : NoComment c s := by
  rcases h with rfl | rfl
  · exact hc
  · rintro u hslash
    cases r with
    | nil => exact ⟨nofun, nofun⟩
    | cons c' r =>
        refine ⟨?_, ?_⟩ <;> rintro ⟨⟩
        · exact (hc r hslash).1 rfl
        · exact (hc r hslash).2 rfl

theorem skip_extended (across : Bool) (hs : Tidy d s) :
    Extended (skip across s) (skip across (s ++ [';'])) := by
  induction s using gap_induction across with
  | nil => exact .inr (by cases across <;> rfl)
  | blank c r hc ih =>
      rw [List.cons_append, skip_blank hc, skip_blank hc]
      exact ih ((tidy_blank hc).mp hs)
  | line r ih =>
      rw [List.cons_append, List.cons_append, skip_line, skip_line, List.dropWhile_append]
      cases hr : r.dropWhile (fun c => !isLineEnd c) with
      | nil => exact .inl rfl
      | cons c u =>
          rw [tidy_line, hr] at hs
          rw [hr] at ih
          exact ih hs
  | block r r' hr ih =>
      obtain ⟨u, hu, htidy⟩ := tidy_block.mp hs
      cases (blockEnd_across hr).symm.trans hu
      rw [List.cons_append, List.cons_append, skip_block, skip_block, hr, blockEnd_append hr]
      exact ih htidy
  | stop c r hc hline hblock =>
      refine .inr ?_
      rw [skip_stop hc hline hblock, List.cons_append]
      cases r with
      | nil => exact skip_stop hc (fun _ _ => nofun) fun _ _ => nofun
      | cons c' r =>
          refine skip_stop hc (fun u hslash hr => ?_) fun u hslash hr => ?_
          · cases hr
            exact hline _ hslash rfl
          · cases hr
            subst hslash
            obtain ⟨r', hr', -⟩ := tidy_block.mp hs
            cases across with
            | true => cases (hblock r rfl rfl).symm.trans hr'
            | false => exact blockEnd_inline_append hr' (hblock r rfl rfl) [';']

theorem extended_rewriting : Rewriting Extended where
  nil := by
    rintro t (rfl | rfl)
    · exact .inl rfl
    · exact .inr ⟨[], rfl⟩
  cons := by
    rintro d c r t - hc h
    obtain ⟨r', rfl, hr⟩ := extended_append [c] h
    exact ⟨r', rfl, noComment_extended hc hr, fun _ => hr⟩
  string := by
    rintro q w r t - - h
    obtain ⟨r', rfl, hr⟩ := extended_append (q :: w) h
    exact ⟨r', rfl, hr⟩
  line := by
    rintro r t h
    obtain ⟨r', rfl, -⟩ := extended_append ['/', '/'] h
    exact ⟨_, rfl⟩
  block := by
    rintro r u t hr h
    obtain ⟨r', rfl, rfl | rfl⟩ := extended_append ['/', '*'] h
    · exact ⟨_, u, rfl, hr, .refl u⟩
    · exact ⟨_, u ++ [';'], rfl, blockEnd_append hr _, .inr rfl⟩
  skip := by
    rintro d s t across hs (rfl | rfl)
    · exact .refl _
    · exact skip_extended across hs

end

abbrev Ended (d : Nat) (s t : List Char) : Prop := Rewriting.Rewritten Extended d s t

theorem ended_tie : Tie Ended := extended_rewriting.tie

theorem ended_follow (n : Nat) : grammar.Follow Ended n grammar := extended_rewriting.follow n

/-- What a statement leaves: the semicolon may still stand behind it, or has been taken. -/
def Left (r r' : List Char) : Prop := Ended 0 r r' ∨ skipGap r = [] ∧ r' = []

/-- No `else` goes on with the statement. -/
def NoElse (x : Stmt) (r : List Char) : Prop :=
  x.isOpen = true → keyword "else" (skipGap r) = none

/-- A reader that succeeds on a text succeeds on the second one in the same way, if `Q` holds of
what it answers and leaves. -/
def Endures {α : Type} (n : Nat) (T : List Char → List Char → Prop) (p : Scan α)
    (Q : α → List Char → Prop) : Prop :=
  ∀ s t, s.length < n → T s t → ∀ a r, p s = some (a, r) → Q a r →
    ∃ r', p t = some (a, r') ∧ Left r r'

namespace Endures

variable {α β : Type} {k n : Nat} {T U : List Char → List Char → Prop} {p : Scan α}
  {Q : α → List Char → Prop} {R : β → List Char → Prop}

theorem seq {j m : Nat} {f : α → Scan β} (h : Follows j m T U p p) (hm : m ≤ n + j)
    (hf : ∀ a, Endures n U (f a) R) : Endures m T (p >>= f) R := by
  intro s t hs hT b r hr hR
  obtain ⟨a, u, hu, hr⟩ := bind_eq_some hr
  obtain ⟨u', hu', hkept⟩ := h.succeeds hs hT hu
  rw [bind_of_some hu']
  exact hf a u u' (by have := hkept.left; omega) hkept.rest b r hr hR

theorem bind {f : α → Scan β} (h : Follows k n T U p p) (hf : ∀ a, Endures n U (f a) R) :
    Endures n T (p >>= f) R :=
  seq h.weaken (Nat.le_refl n) hf

theorem bindBehind {f : α → Scan β} (h : Follows 1 (n + 1) T U p p)
    (hf : ∀ a, Endures n U (f a) R) : Endures (n + 1) T (p >>= f) R :=
  seq h (Nat.le_refl (n + 1)) hf

theorem orElse {q : Scan α} (hp : Follows k n T (Ended 0) p p) (hq : Endures n T q Q) :
    Endures n T (p <|> q) Q := by
  intro s t hs hT a r hr hQ
  rw [orElse_apply] at hr ⊢
  rcases hp s t hs hT with ⟨hsp, htp⟩ | ⟨b, u, u', hu, hu', hkept⟩
  · rw [hsp, Option.none_or] at hr
    rw [htp, Option.none_or]
    exact hq s t hs hT a r hr hQ
  · rw [hu, Option.some_or] at hr
    cases hr
    exact ⟨u', by rw [hu', Option.some_or], .inl hkept.rest⟩

theorem map {f : α → β} (h : Endures n T p fun a r => R (f a) r) :
    Endures n T (do let a ← p; return f a) R := by
  intro s t hs hT b r hr hR
  obtain ⟨a, u, hu, hr⟩ := bind_eq_some hr
  cases hr
  obtain ⟨u', hu', hleft⟩ := h s t hs hT a r hu hR
  exact ⟨u', by rw [bind_of_some hu']; rfl, hleft⟩

end Endures

section

variable {n : Nat} {s t r : List Char} {u : Unit}

theorem skipGap_nil (h : skipInlineGap s = []) : skipGap s = [] := by
  show skip true s = []
  rw [← skip_inline_skip, show skip false s = [] from h]
  rfl

/-- A semicolon in the same line is behind both texts or behind none, but for the one at the end. -/
theorem semicolon_ended (h : Ended 0 s t) :
    (skipInlineGap s = [] ∧ skipInlineGap t = [';']) ∨
      (char ';' (skipInlineGap s) = none ∧ char ';' (skipInlineGap t) = none) ∨
      ∃ r r', char ';' (skipInlineGap s) = some ((), r) ∧ char ';' (skipInlineGap t) = some ((), r') ∧
        Ended 0 r r' := by
  have hskip : Ended 0 (skipInlineGap s) (skipInlineGap t) := extended_rewriting.skipped false h
  generalize skipInlineGap s = v, skipInlineGap t = v' at hskip
  cases v with
  | nil =>
      rcases hskip.rewrites with rfl | rfl
      · exact .inr (.inl ⟨rfl, rfl⟩)
      · exact .inl ⟨rfl, rfl⟩
  | cons c v =>
      obtain ⟨v', rfl⟩ := extended_rewriting.head hskip
      by_cases hc : c = ';'
      · subst hc
        refine .inr (.inr ⟨v, v', rfl, rfl, ?_⟩)
        cases ended_tie.fronts hskip with
        | cons _ hbehind => exact hbehind.ordinary rfl
      · exact .inr (.inl ⟨if_neg hc, if_neg hc⟩)

theorem semicolonBehind (x : Stmt) : Endures n (Ended 0)
    (do let _ ← maybe (do inlineGap; char ';'); return x) NoElse := by
  intro s t _ hT y r hr _
  have hread (v : List Char) :
      (do let _ ← maybe (do inlineGap; char ';'); return x : Scan Stmt) v =
        some (x, match char ';' (skipInlineGap v) with
          | none => v
          | some (_, w) => w) := by
    have hsemicolon : (do inlineGap; char ';' : Scan Unit) v = char ';' (skipInlineGap v) := rfl
    rw [bind_apply, maybe_apply, hsemicolon]
    cases char ';' (skipInlineGap v) <;> rfl
  rw [hread] at hr ⊢
  rcases semicolon_ended hT with ⟨hs, ht⟩ | ⟨hs, ht⟩ | ⟨w, w', hs, ht, hw⟩
  · rw [hs] at hr
    cases hr
    rw [ht]
    exact ⟨[], rfl, .inr ⟨skipGap_nil hs, rfl⟩⟩
  · rw [hs] at hr
    cases hr
    rw [ht]
    exact ⟨t, rfl, .inl hT⟩
  · rw [hs] at hr
    cases hr
    rw [ht]
    exact ⟨w', rfl, .inl hw⟩

theorem skipInlineGap_nil {d : Nat} (hs : Tidy d s) (hgap : skipGap s = [])
    (hline : (do inlineGap; atLineEnd <|> blockComment : Scan Unit) s = none) :
    skipInlineGap s = [] := by
  have hread : (do inlineGap; atLineEnd <|> blockComment : Scan Unit) s =
      (atLineEnd (skipInlineGap s)).or (blockComment (skipInlineGap s)) := by
    rw [← orElse_apply]
    rfl
  have hstop : skip false (skipInlineGap s) = skipInlineGap s := skip_skip s
  have htidy : Tidy d (skipInlineGap s) := (tidy_skip false s).mpr hs
  have hgap : skip true (skipInlineGap s) = [] := (skip_inline_skip s).trans hgap
  rw [hread] at hline
  generalize skipInlineGap s = v at hline hstop htidy hgap
  cases v using front_cases with
  | nil => rfl
  | line r => exact (skip_line_ne r hstop).elim
  | closed r r' hr =>
      rw [atLineEnd_cons, blockComment_block, hr] at hline
      cases hline
  | unclosed r hr =>
      obtain ⟨r', hr', -⟩ := tidy_block.mp htidy
      cases hr.symm.trans hr'
  | code c r hc =>
      have hblank : isGapBlank true c = false := by
        rw [← Bool.not_eq_true]
        intro hblank
        rw [isGapBlank, Bool.true_and, Bool.or_eq_true] at hblank
        rcases hblank with hinline | hend
        · rw [skip_blank (by rw [isGapBlank, hinline, Bool.true_or])] at hstop
          have hlength : (skip false r).length ≤ r.length := (skip_suffix r).length_le
          rw [hstop, List.length_cons] at hlength
          omega
        · rw [atLineEnd_cons, if_pos hend] at hline
          cases hline
      rw [skip_stop hblank (fun u h => (hc u h).1) fun u h h' => ((hc u h).2 h').elim] at hgap
      cases hgap

theorem skipGap_ended (h : Ended 0 s t) (hs : skipGap s = [])
    (hline : (do inlineGap; atLineEnd <|> blockComment : Scan Unit) s = none)
    (ht : char ';' (skipInlineGap t) = none) : skipGap t = [] := by
  have hskip : Ended 0 (skipInlineGap s) (skipInlineGap t) := extended_rewriting.skipped false h
  rw [skipInlineGap_nil h.tidy hs hline] at hskip
  rcases hskip.rewrites with hnil | hsemicolon
  · exact skipGap_nil hnil
  · rw [hsemicolon] at ht
    cases ht

/-- The end of the text takes the semicolon with it. -/
theorem stmtEnd_endures {Q : Unit → List Char → Prop} : Endures n (Ended 0) stmtEnd Q := by
  intro s t hlength hT u r hr _
  have hsemicolon (v : List Char) : (do inlineGap; char ';' : Scan Unit) v =
      char ';' (skipInlineGap v) := rfl
  have hend (v : List Char) : (do gap; endOfText : Scan Unit) v = endOfText (skipGap v) := rfl
  rw [stmtEnd, orElse_apply, orElse_apply, orElse_apply, hsemicolon, hend] at hr ⊢
  rcases semicolon_ended hT with ⟨hs, ht⟩ | ⟨hs, ht⟩ | ⟨w, w', hs, ht, hw⟩
  · have hline : (do inlineGap; atLineEnd <|> blockComment : Scan Unit) s = none := by
      show (atLineEnd <|> blockComment) (skipInlineGap s) = none
      rw [hs]
      rfl
    have hbrace : (do gap; beforeBrace : Scan Unit) s = none := by
      show beforeBrace (skipGap s) = none
      rw [skipGap_nil hs]
      rfl
    rw [hs, hline, hbrace, skipGap_nil hs] at hr
    cases hr
    exact ⟨[], by rw [ht]; rfl, .inr ⟨rfl, rfl⟩⟩
  · rw [hs, Option.none_or] at hr
    rw [ht, Option.none_or]
    rcases extended_rewriting.lineBreak n 0 s t hlength hT with
      ⟨hline, hline'⟩ | ⟨_, w, w', hw, hw', hkept⟩
    · rw [hline, Option.none_or] at hr
      rw [hline', Option.none_or]
      rcases ended_tie.behindGap n ended_tie.beforeBrace.tied s t hlength hT with
        ⟨hbrace, hbrace'⟩ | ⟨_, w, w', hw, hw', hkept⟩
      · rw [hbrace, Option.none_or] at hr
        rw [hbrace', Option.none_or]
        cases hskip : skipGap s with
        | cons c v =>
            rw [hskip] at hr
            cases hr
        | nil =>
            rw [hskip] at hr
            cases hr
            exact ⟨[], by rw [skipGap_ended hT hskip hline ht]; rfl, .inr ⟨rfl, rfl⟩⟩
      · rw [hw, Option.some_or] at hr
        cases hr
        exact ⟨w', by rw [hw', Option.some_or], .inl hkept.rest⟩
    · rw [hw, Option.some_or] at hr
      cases hr
      exact ⟨w', by rw [hw', Option.some_or], .inl hkept.rest⟩
  · rw [hs, Option.some_or] at hr
    cases hr
    exact ⟨w', by rw [ht, Option.some_or], .inl hw⟩

end

section

variable {n : Nat} (h : Endures n (Ended 0) grammar.stmt NoElse)

theorem terminated_endures : Endures (n + 1) (Ended 0) (terminated grammar) NoElse := by
  have hfollow := ended_follow n
  have hjump := ended_tie.jump (d := 0) hfollow (extended_rewriting.sameLine n 0)
  refine .bindBehind ((ended_tie.declaration hfollow).orElse
    (hjump.orElse ((ended_tie.expr hfollow).map _))) fun x => ?_
  exact .map stmtEnd_endures

include h

theorem whileStmt_endures : Endures (n + 1) (Ended 0) (whileStmt grammar) NoElse :=
  .bindBehind (ended_tie.keyword _ rfl) fun _ =>
    .bind (ended_tie.condition (ended_follow n)).tied fun _ => .map h

theorem forStmt_endures : Endures (n + 1) (Ended 0) (forStmt grammar) NoElse := by
  have hfollow := ended_follow n
  have hsemicolon := ended_tie.markSemicolon n (ended_tie.firm 0)
  refine .bindBehind (ended_tie.keyword _ rfl) fun _ => ?_
  refine .bind (ended_tie.markOpening n rfl).tied fun _ => ?_
  refine .bind (ended_tie.overGap (d := 1) n) fun _ => .bind (ended_tie.forInit hfollow).maybe fun _ => ?_
  refine .bind hsemicolon fun _ => .bind (hfollow.expr 1).maybe fun _ => ?_
  refine .bind hsemicolon fun _ => .bind (hfollow.expr 1).maybe fun _ => ?_
  exact .bind (ended_tie.markClosing n rfl).tied fun _ => .map h

theorem doStmt_endures : Endures (n + 1) (Ended 0) (doStmt grammar) NoElse := by
  refine .bindBehind (ended_tie.keyword _ rfl) fun _ => ?_
  intro s t hs hT x r hr hQ
  obtain ⟨body, u, hbody, hr⟩ := bind_eq_some hr
  obtain ⟨_, w, hw, hrest⟩ := bind_eq_some hr
  cases hw
  obtain ⟨_, v, hv, -⟩ := bind_eq_some hrest
  have helse : NoElse body u := fun _ =>
    keyword_of_ne ((keyword_eq_some_iff rfl).mp hv) rfl (by decide)
  obtain ⟨hlength, -⟩ := (shapes n).stmt s hs trivial body u hbody
  obtain ⟨u', hu', hleft⟩ := h s t hs hT body u hbody helse
  rw [bind_of_some hu']
  rcases hleft with hleft | ⟨hnil, -⟩
  · have htail : Endures n (Ended 0) (do
        gap
        keyword "while"
        let test ← condition grammar
        let _ ← maybe (do inlineGap; char ';')
        return Stmt.doWhile body test) NoElse :=
      .bind (ended_tie.overGap (d := 0) n) fun _ => .bind (ended_tie.keyword n rfl) fun _ =>
        .bind (ended_tie.condition (ended_follow n)).tied fun _ => semicolonBehind _
    exact htail u u' (by omega) hleft x r hr hQ
  · rw [hnil] at hv
    cases hv

theorem elseTail_endures : Endures n (Ended 0) elseTail NoElse :=
  .bind (ended_tie.overGap (d := 0) n) fun _ => .bind (ended_tie.keyword n rfl) fun _ => h

omit h in
theorem elseTail_left {r r' : List Char} (hr : keyword "else" (skipGap r) = none) (h : Left r r') :
    elseTail r' = none := by
  have hread : elseTail r' = (do keyword "else"; grammar.stmt : Scan Stmt) (skipGap r') := rfl
  rw [hread]
  refine bind_of_none ?_
  rcases h with h | ⟨-, rfl⟩
  · exact (ended_tie.keyword (r.length + 1) rfl).fails (Nat.lt_succ_of_le (skip_suffix r).length_le)
      (extended_rewriting.skipped true h) hr
  · rfl

theorem ifStmt_endures : Endures (n + 1) (Ended 0) (ifStmt grammar) NoElse := by
  refine .bindBehind (ended_tie.keyword _ rfl) fun _ =>
    .bind (ended_tie.condition (ended_follow n)).tied fun test => ?_
  show Endures n (Ended 0) (do
    let t ← grammar.stmt
    let f ← maybe elseTail
    return Stmt.ifElse test t f) NoElse
  intro s t hs hT x r hr hQ
  obtain ⟨body, u, hbody, hr⟩ := bind_eq_some hr
  obtain ⟨other, v, hother, hr⟩ := bind_eq_some hr
  cases hr
  obtain ⟨hlength, -, hopen⟩ := (shapes n).stmt s hs trivial body u hbody
  cases htail : elseTail u with
  | none =>
      rw [maybe_of_none htail] at hother
      cases hother
      have helse : keyword "else" (skipGap r) = none := hQ rfl
      obtain ⟨r', hr', hleft⟩ := h s t hs hT body r hbody fun _ => helse
      rw [bind_of_some hr', bind_of_some (maybe_of_none (elseTail_left helse hleft))]
      exact ⟨r', rfl, hleft⟩
  | some y =>
      rw [maybe_of_some htail] at hother
      cases hother
      have hclosed : NoElse body u := fun hbody => by
        rw [hopen hbody] at htail
        cases htail
      obtain ⟨u', hu', hleft | ⟨hnil, -⟩⟩ := h s t hs hT body u hbody hclosed
      · obtain ⟨r', hr', hleft⟩ := elseTail_endures h u u' (by omega) hleft _ _ htail hQ
        rw [bind_of_some hu', bind_of_some (maybe_of_some hr')]
        exact ⟨r', rfl, hleft⟩
      · have hread : elseTail u = (do keyword "else"; grammar.stmt : Scan Stmt) (skipGap u) := rfl
        rw [hread, hnil] at htail
        cases htail

omit h in
theorem flat_endures : Endures (n + 1) (Settled Ended 0) ((do char ';'; return Stmt.empty) <|>
    (Stmt.block <$> block grammar <|> tryStmt grammar) <|> functionDecl grammar <|>
      terminated grammar) NoElse := by
  have hfollow := ended_follow n
  have hrest : Endures (n + 1) (Ended 0) ((Stmt.block <$> block grammar <|> tryStmt grammar) <|>
      functionDecl grammar <|> terminated grammar) NoElse :=
    .orElse (((ended_tie.block hfollow).tied.map _).orElse (ended_tie.tryStmt hfollow).tied) <|
      .orElse (ended_tie.functionDecl hfollow).tied terminated_endures
  intro s t hs hT x r hr hQ
  cases s with
  | nil =>
      rw [← stmt_flat rfl rfl rfl rfl rfl] at hr
      cases stmt_takes _ _ _ hr
  | cons c s =>
      obtain ⟨t, rfl⟩ := extended_rewriting.head hT.tied
      rw [orElse_apply] at hr ⊢
      by_cases hc : c = ';'
      · subst hc
        cases hr
        refine ⟨t, rfl, .inl ?_⟩
        cases ended_tie.fronts hT.tied with
        | cons _ hbehind => exact hbehind.ordinary rfl
      · have hempty (v : List Char) : (do char ';'; return Stmt.empty : Scan Stmt) (c :: v) = none :=
          bind_of_none (if_neg hc)
        rw [hempty, Option.none_or] at hr ⊢
        exact hrest _ _ hs hT.tied x r hr hQ

omit h in
theorem endures_keyword {w : String} {y : Unit × List Char} {x : Stmt} {p : Scan Stmt}
    {s t r : List Char} (hw : isPlain w = true)
    (hread : ∀ v u k, skipGap v = v → keyword w v = some (u, k) → Grammar.stmt grammar v = p v)
    (hp : Endures (n + 1) (Ended 0) p NoElse) (hs : s.length < n + 1) (hst : Settled Ended 0 s t)
    (hy : keyword w s = some y) (hr : Grammar.stmt grammar s = some (x, r)) (hQ : NoElse x r) :
    ∃ r', Grammar.stmt grammar t = some (x, r') ∧ Left r r' := by
  obtain ⟨_, hy', -⟩ := (ended_tie.keyword (n + 1) hw).succeeds hs hst.tied hy
  rw [hread s _ _ hst.left hy] at hr
  rw [hread t _ _ hst.right hy']
  exact hp s t hs hst.tied x r hr hQ

theorem stmt_endures : Endures (n + 1) (Ended 0) (Grammar.stmt grammar) NoElse := by
  intro s t hs hT x r hr hQ
  have hskip : Settled Ended 0 (skipGap s) (skipGap t) :=
    ⟨extended_rewriting.skipped true hT, skip_skip s, skip_skip t⟩
  have hlength : (skipGap s).length < n + 1 := Nat.lt_of_le_of_lt (skip_suffix s).length_le hs
  rw [← stmt_skipGap] at hr ⊢
  generalize skipGap s = s, skipGap t = t at hskip hlength hr ⊢
  have hnone {w : String} (hw : isPlain w = true) (hy : keyword w s = none) : keyword w t = none :=
    (ended_tie.keyword (n + 1) hw).fails hlength hskip.tied hy
  cases hif : keyword "if" s with
  | some y =>
      exact endures_keyword rfl (fun _ _ _ => stmt_if) (ifStmt_endures h) hlength hskip hif hr hQ
  | none =>
  cases hwhile : keyword "while" s with
  | some y =>
      exact endures_keyword rfl (fun _ _ _ => stmt_while) (whileStmt_endures h) hlength hskip hwhile
        hr hQ
  | none =>
  cases hdo : keyword "do" s with
  | some y =>
      exact endures_keyword rfl (fun _ _ _ => stmt_do) (doStmt_endures h) hlength hskip hdo hr hQ
  | none =>
  cases hfor : keyword "for" s with
  | some y =>
      exact endures_keyword rfl (fun _ _ _ => stmt_for) (forStmt_endures h) hlength hskip hfor hr hQ
  | none =>
      rw [stmt_flat hskip.left hif hwhile hdo hfor] at hr
      rw [stmt_flat hskip.right (hnone rfl hif) (hnone rfl hwhile) (hnone rfl hdo) (hnone rfl hfor)]
      exact flat_endures s t hlength hskip x r hr hQ

end

theorem endures (n : Nat) : Endures n (Ended 0) grammar.stmt NoElse := by
  induction n with
  | zero => exact fun _ _ => nofun
  | succ n ih =>
      rw [grammar_stmt]
      exact stmt_endures ih

theorem noElse_of_many {u r : List Char} {ts : List Stmt}
    (h : many (stmt grammar) u = some (ts, r)) (hr : skipGap r = []) :
    keyword "else" (skipGap u) = none := by
  cases hkeyword : keyword "else" (skipGap u) with
  | none => rfl
  | some y =>
      have hnone : stmt grammar u = none := by
        rw [← stmt_skipGap]
        exact stmt_else (skip_skip u) hkeyword
      rw [many_of_none hnone] at h
      cases h
      rw [hr] at hkeyword
      cases hkeyword

/-- Behind the statements of a program the semicolon may be one more statement. -/
theorem stmts_ended {s t r : List Char} {ts : List Stmt} (h : Ended 0 s t)
    (hs : many (stmt grammar) s = some (ts, r)) (hr : skipGap r = []) :
    ∃ r', (many (stmt grammar) t = some (ts, r') ∨
      many (stmt grammar) t = some (ts ++ [.empty], r')) ∧ skipGap r' = [] := by
  have hnil : stmt grammar [] = none := rfl
  have hfails {v : List Char} (hv : skipGap v = []) : many (stmt grammar) v = some ([], v) :=
    many_of_none (by rw [← stmt_skipGap, hv]; exact hnil)
  induction ts generalizing s t with
  | nil =>
      cases eq_of_many_nil hs
      have hskip : Ended 0 [] (skipGap t) := hr ▸ extended_rewriting.skipped true h
      rcases hskip.rewrites with ht | ht
      · exact ⟨t, .inl (hfails ht), ht⟩
      · have hempty : stmt grammar t = some (.empty, []) := by
          rw [← stmt_skipGap, ht]
          rfl
        refine ⟨[], .inr ?_, rfl⟩
        rw [many_of_some stmt_takes hempty, hfails rfl]
        rfl
  | cons x ts ih =>
      obtain ⟨u, hx, hts⟩ := of_many_cons stmt_takes hs
      obtain ⟨u', hu', hleft⟩ := endures (s.length + 1) s t (Nat.lt_succ_self _) h x u
        (by rw [grammar_stmt]; exact hx) fun _ => noElse_of_many hts hr
      rw [grammar_stmt] at hu'
      rcases hleft with hleft | ⟨hu, rfl⟩
      · obtain ⟨r', hts', hr'⟩ := ih hleft hts
        refine ⟨r', hts'.imp (fun h => ?_) (fun h => ?_), hr'⟩ <;>
          rw [many_of_some stmt_takes hu', h] <;> rfl
      · rw [hfails hu] at hts
        cases hts
        refine ⟨[], .inl ?_, rfl⟩
        rw [many_of_some stmt_takes hu', hfails rfl]
        rfl

theorem ofChars?_semicolon {s : List Char} {t : Program} (h : Program.ofChars? s = .ok t) :
    Program.ofChars? (s ++ [';']) = .ok t ∨ Program.ofChars? (s ++ [';']) = .ok (t ++ [.empty]) := by
  obtain ⟨r, hr, hgap⟩ := ofChars?_eq_ok.mp h
  rw [grammar_stmts] at hr
  obtain ⟨r', hr', hgap'⟩ := stmts_ended ⟨tidy_of_ofChars? h, .inr rfl⟩ hr hgap
  refine hr'.imp (fun hr' => ?_) fun hr' => ?_ <;>
    exact ofChars?_eq_ok.mpr ⟨r', by rw [grammar_stmts, hr'], hgap'⟩

/-- A program without strings that go on with the next line means the same as an entry. -/
theorem parse_complete {source : String} {t : Program} (h : Program.parse source = .ok t)
    (hstrings : InZones Uncontinued .code source.toList) :
    Program.parse (complete source) = .ok t ∨
      Program.parse (complete source) = .ok (t ++ [.empty]) := by
  have hjoined := ofChars?_joinLines h hstrings
  have hplain : Program.parse (String.ofList (joinLines source.toList)) = .ok t := by
    rw [Program.parse, String.toList_ofList]
    exact hjoined
  rw [complete]
  split
  · exact .inl hplain
  · split
    · exact .inl hplain
    · rw [Program.parse, String.toList_ofList]
      exact ofChars?_semicolon hjoined

/-- A comment goes on with the next line as an entry, and the last statement is given its end. -/
theorem parse_complete_comment :
    Program.parse "if (a) b\nelse do c; while (d) // e\\\n" =
        .ok [.ifElse (.ident "a") (.expr (.ident "b"))
          (some (.doWhile (.expr (.ident "c")) (.ident "d")))] ∧
      ∃ t, Program.parse (complete "if (a) b\nelse do c; while (d) // e\\\n") = .ok t := by
  have h : Program.parse "if (a) b\nelse do c; while (d) // e\\\n" =
      .ok [.ifElse (.ident "a") (.expr (.ident "b"))
        (some (.doWhile (.expr (.ident "c")) (.ident "d")))] := by cbv
  refine ⟨h, ?_⟩
  rcases parse_complete h (by decide) with h | h <;> exact ⟨_, h⟩

/-- A string that goes on with the next line is cut there. -/
example : Program.parse "'a\\\nb'" = .ok [.expr (.string "ab")] ∧
    complete "'a\\\nb'" = "'a\nb';" := by
  constructor
  · cbv
  · decide

end SmallScript.Console
