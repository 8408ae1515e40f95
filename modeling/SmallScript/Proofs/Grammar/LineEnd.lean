import SmallScript.Proofs.Console.Joined
import Mathlib

namespace SmallScript.Lexical

open Scan Console

/-- A carriage return in front of every line feed that has none. -/
def withReturns : List Char → List Char
  | '\r' :: '\n' :: r => '\r' :: '\n' :: withReturns r
  | '\n' :: r => '\r' :: '\n' :: withReturns r
  | c :: r => c :: withReturns r
  | [] => []

section

variable {d : Nat} {c q : Char} {r s u w : List Char} {across : Bool}

theorem withReturns_cons (hfeed : c ≠ '\n') (hpair : ∀ u, c = '\r' → r ≠ '\n' :: u) :
    withReturns (c :: r) = c :: withReturns r :=
  withReturns.eq_3 c r hpair hfeed

theorem withReturns_code (h : isLineEnd c = false) (r : List Char) :
    withReturns (c :: r) = c :: withReturns r := by
  refine withReturns_cons ?_ fun _ => ?_ <;> rintro rfl <;> cases h

theorem eq_of_withReturns (hc : isLineEnd c = false) (h : withReturns s = c :: u) :
    ∃ r, s = c :: r ∧ u = withReturns r := by
  fun_cases withReturns s with
  | case1 r | case2 r =>
      cases h
      cases hc
  | case3 c' r hpair hfeed =>
      rw [withReturns_cons hfeed hpair] at h
      cases h
      exact ⟨r, rfl, rfl⟩
  | case4 => cases h

theorem withReturns_dropWhile (r : List Char) :
    (withReturns r).dropWhile (fun c => !isLineEnd c) =
      withReturns (r.dropWhile fun c => !isLineEnd c) := by
  fun_induction withReturns r with
  | case1 r | case2 r => rfl
  | case3 c r hpair hfeed ih =>
      cases hc : isLineEnd c with
      | true =>
          rw [List.dropWhile_cons_of_neg (by simp [hc]), List.dropWhile_cons_of_neg (by simp [hc]),
            withReturns_cons hfeed hpair]
      | false =>
          rw [List.dropWhile_cons_of_pos (by simp [hc]), List.dropWhile_cons_of_pos (by simp [hc]), ih]
  | case4 => rfl

theorem blockEnd_withReturns (across : Bool) (r : List Char) :
    blockEnd across (withReturns r) = (blockEnd across r).map withReturns := by
  fun_induction withReturns r with
  | case1 r ih | case2 r ih => cases across <;> simp [blockEnd, isLineEnd, ih]
  | case3 c r hpair hfeed ih =>
      by_cases hend : ∃ u, c = '*' ∧ r = '/' :: u
      · obtain ⟨u, rfl, rfl⟩ := hend
        rw [withReturns_code rfl]
        rfl
      · rw [blockEnd.eq_2 _ _ _ fun u hc hr => hend ⟨u, hc, hr⟩, blockEnd.eq_2, ih]
        · split <;> rfl
        · intro u hc hr
          obtain ⟨u', hr', -⟩ := eq_of_withReturns rfl hr
          exact hend ⟨u', hc, hr'⟩
  | case4 => rfl

theorem noComment_withReturns (h : NoComment c r) : NoComment c (withReturns r) := by
  intro u hc
  refine ⟨fun hr => ?_, fun hr => ?_⟩ <;> obtain ⟨u', hr', -⟩ := eq_of_withReturns rfl hr
  · exact (h u' hc).1 hr'
  · exact (h u' hc).2 hr'

/-- A line end, which may lose its line feed to the carriage return in front of it. -/
theorem withReturns_lineEnd (hc : isLineEnd c = true) (r : List Char) :
    ∃ c' r', withReturns (c :: r) = c' :: r' ∧ (c' = c ∨ c = '\n' ∧ c' = '\r') ∧
      skipGap r' = skipGap (withReturns r) := by
  by_cases hfeed : c = '\n'
  · subst hfeed
    exact ⟨'\r', '\n' :: withReturns r, rfl, .inr ⟨rfl, rfl⟩, skip_blank rfl _⟩
  by_cases hpair : ∃ u, c = '\r' ∧ r = '\n' :: u
  · obtain ⟨u, rfl, rfl⟩ := hpair
    exact ⟨'\r', '\n' :: withReturns u, rfl, .inl rfl, (skip_blank rfl _).symm⟩
  · exact ⟨c, withReturns r, withReturns_cons hfeed fun u hc hr => hpair ⟨u, hc, hr⟩, .inl rfl, rfl⟩

theorem skip_withReturns_blank (hc : isGapBlank across c = true) (r : List Char) :
    skip across (withReturns (c :: r)) = skip across (withReturns r) := by
  cases hline : isLineEnd c with
  | false => rw [withReturns_code hline, skip_blank hc]
  | true =>
      cases across with
      | false =>
          rw [isGapBlank, isInlineBlank_of_isLineEnd hline] at hc
          cases hc
      | true =>
          obtain ⟨c', r', hr, hc', hskip⟩ := withReturns_lineEnd hline r
          rw [hr, skip_blank (by rcases hc' with rfl | ⟨-, rfl⟩ <;> [exact hc; rfl])]
          exact hskip

theorem skip_withReturns (across : Bool) (s : List Char) :
    skip across (withReturns s) = withReturns (skip across s) := by
  induction s using gap_induction across with
  | nil => rfl
  | blank c r hc ih => rw [skip_withReturns_blank hc, skip_blank hc, ih]
  | line r ih =>
      rw [skip_line, withReturns_code rfl, withReturns_code rfl, skip_line, withReturns_dropWhile, ih]
  | block r r' hr ih =>
      rw [skip_block, withReturns_code rfl, withReturns_code rfl, skip_block, blockEnd_withReturns, hr]
      exact ih
  | stop c r hc hline hblock =>
      rw [skip_stop hc hline hblock]
      cases hend : isLineEnd c with
      | true =>
          obtain ⟨c', r', hr, hc', -⟩ := withReturns_lineEnd hend r
          have hslash : c' ≠ '/' := by
            rintro rfl
            rcases hc' with rfl | ⟨-, h⟩
            · cases hend
            · cases h
          have hblank : isGapBlank across c' = false := by
            rcases hc' with rfl | ⟨rfl, rfl⟩
            · exact hc
            · exact hc
          rw [hr]
          exact skip_stop hblank (fun _ h => (hslash h).elim) fun _ h => (hslash h).elim
      | false =>
          rw [withReturns_code hend]
          refine skip_stop hc (fun u hslash hr => ?_) fun u hslash hr => ?_ <;>
            obtain ⟨u', hr', rfl⟩ := eq_of_withReturns rfl hr
          · exact hline u' hslash hr'
          · rw [blockEnd_withReturns, hblock u' hslash hr']
            rfl

theorem Whole.ne_feed (hq : IsQuote q) (h : Whole q w) (r u : List Char) : w ++ r ≠ '\n' :: u := by
  cases h with
  | close => rcases hq with rfl | rfl <;> exact nofun
  | plain c _ _ hline _ =>
      rintro ⟨⟩
      exact hline (.inl rfl)
  | escaped c _ => exact nofun

/-- Only a backslash in front of a line feed makes a difference to a string on one line. -/
theorem withReturns_whole (hq : IsQuote q) (h : Whole q w) (r : List Char)
    (hw : InZones Uncontinued (.quote q) (w ++ r)) : withReturns (w ++ r) = w ++ withReturns r := by
  induction h with
  | close => exact withReturns_code hq.isLineEnd_eq_false r
  | @plain c s hc hq' hline hs ih =>
      have hzones : zonedFrom (.quote q) (c :: (s ++ r)) =
          (.quote q, c :: (s ++ r)) :: zonedFrom (.quote q) (s ++ r) := by
        rw [zonedFrom.eq_11 _ _ _ fun _ _ h => (hc h).elim, if_neg hq']
      rw [List.cons_append, withReturns_cons (fun h => hline (.inl h)) fun _ h => (hline (.inr h)).elim,
        ih fun x hx => hw x (hzones ▸ List.mem_cons_of_mem _ hx)]
      rfl
  | @escaped c s hs ih =>
      have hslash := hw (.quote q, '\\' :: c :: (s ++ r)) (List.mem_cons_self ..)
      have hfeed : c ≠ '\n' := by
        rintro rfl
        exact hslash rfl
      rw [List.cons_append, List.cons_append, withReturns_code rfl,
        withReturns_cons hfeed fun u _ => hs.ne_feed hq r u,
        ih fun x hx => hw x (List.mem_cons_of_mem _ (List.mem_cons_of_mem _ hx))]
      rfl

section

variable {P : Zone → List Char → Prop}

theorem InZones.line (hP : ∀ s, P .line s)
    (h : InZones P .code (r.dropWhile fun c => !isLineEnd c)) : InZones P .line r := by
  induction r with
  | nil => exact nofun
  | cons c r ih =>
      intro x hx
      rw [zonedFrom, List.mem_cons] at hx
      rcases hx with rfl | hx
      · exact hP _
      cases hc : isLineEnd c with
      | true =>
          have hblank := isGapBlank_of_isLineEnd hc
          rw [List.dropWhile_cons_of_neg (by simp [hc])] at h
          rw [if_pos hc] at hx
          rw [InZones, zonedFrom_cons (.of_isGapBlank hblank r), behind_of_isGapBlank hblank] at h
          exact h x hx
      | false =>
          rw [List.dropWhile_cons_of_pos (by simp [hc])] at h
          rw [if_neg (by simp [hc])] at hx
          exact ih h x hx

theorem InZones.block (hP : ∀ start crosses s, P (.block start crosses) s) {start : List Char}
    {crosses : Bool} (hr : blockEnd true r = some u) (h : InZones P .code u) :
    InZones P (.block start crosses) r := by
  fun_induction blockEnd true r generalizing crosses with
  | case1 r =>
      cases hr
      exact List.forall_mem_cons.mpr ⟨hP _ _ _, h⟩
  | case2 => contradiction
  | case3 c r hstar _ ih =>
      rw [InZones, zonedFrom.eq_8 _ _ _ _ hstar]
      exact List.forall_mem_cons.mpr ⟨hP _ _ _, ih hr⟩
  | case4 => cases hr

end

theorem uncontinued_cons (h : ∀ u, c = '\\' → r ≠ '\n' :: u) : Uncontinued (.quote q) (c :: r) := by
  intro htake
  cases r with
  | nil => cases (List.cons.inj htake).2
  | cons c' u =>
      obtain ⟨rfl, hrest⟩ := List.cons.inj htake
      exact h u rfl (congrArg (· :: u) (List.cons.inj hrest).1)

theorem uncontinued_of_tidyFrom (hq : IsQuote q) (h : Whole q w)
    (hr : Tidy d (withReturns r) → InZones Uncontinued .code r)
    (htidy : tidyFrom d (.quote q) (withReturns (w ++ r)) = true) :
    InZones Uncontinued (.quote q) (w ++ r) := by
  have hne := ne_backslash hq
  induction h with
  | close =>
      rw [List.singleton_append, withReturns_code hq.isLineEnd_eq_false, tidyFrom_close hq] at htidy
      rw [InZones, List.singleton_append, zonedFrom.eq_11 _ _ _ fun _ _ h => (hne h.symm).elim,
        if_pos rfl]
      exact List.forall_mem_cons.mpr ⟨uncontinued_cons fun _ h => (hne h.symm).elim, hr htidy⟩
  | @plain c s hc hq' hline hs ih =>
      rw [List.cons_append, withReturns_cons (fun h => hline (.inl h)) fun _ h => (hline (.inr h)).elim,
        tidyFrom_plain hc hq', if_neg hline] at htidy
      rw [InZones, List.cons_append, zonedFrom.eq_11 _ _ _ fun _ _ h => (hc h).elim, if_neg hq']
      exact List.forall_mem_cons.mpr ⟨uncontinued_cons fun _ h => (hc h).elim, ih htidy⟩
  | @escaped c s hs ih =>
      rw [List.cons_append, List.cons_append, withReturns_code rfl] at htidy
      have hfeed : c ≠ '\n' := by
        rintro rfl
        have hbroken : tidyFrom d (.quote q) ('\n' :: withReturns (s ++ r)) = true := htidy
        rw [tidyFrom_plain (by decide) (by rintro rfl; rcases hq with h | h <;> cases h),
          if_pos (.inl rfl)] at hbroken
        cases hbroken
      rw [withReturns_cons hfeed fun u _ => hs.ne_feed hq r u] at htidy
      have hslash : Uncontinued (.quote q) ('\\' :: c :: (s ++ r)) :=
        uncontinued_cons fun u _ h => hfeed (List.cons.inj h).1
      have hnext : Uncontinued (.quote q) (c :: (s ++ r)) :=
        uncontinued_cons fun u _ => hs.ne_feed hq r u
      exact List.forall_mem_cons.mpr ⟨hslash, List.forall_mem_cons.mpr ⟨hnext, ih htidy⟩⟩

theorem tidy_withReturns_lineEnd (hc : isLineEnd c = true) :
    Tidy d (withReturns (c :: r)) ↔ Tidy d (withReturns r) := by
  rw [← tidy_skip true, skip_withReturns_blank (isGapBlank_of_isLineEnd hc), tidy_skip]

/-- A text in order that stays in order has no string that goes on with the next line. -/
theorem uncontinued_of_tidy (h : Tidy d s) (hreturns : Tidy d (withReturns s)) :
    InZones Uncontinued .code s := by
  have hcode {c : Char} {r : List Char} (hc : NoComment c r)
      (h : InZones Uncontinued (.behind c) r) : InZones Uncontinued .code (c :: r) := by
    rw [InZones, zonedFrom_cons hc]
    exact List.forall_mem_cons.mpr ⟨trivial, h⟩
  induction d, s, h using tidy_induction with
  | nil => exact nofun
  | line d r _ _ ih =>
      rw [withReturns_code rfl, withReturns_code rfl, tidy_line, withReturns_dropWhile] at hreturns
      exact List.forall_mem_cons.mpr ⟨trivial, InZones.line (fun _ => trivial) (ih hreturns)⟩
  | block d r u _ _ hr ih =>
      rw [withReturns_code rfl, withReturns_code rfl, tidy_block, blockEnd_withReturns, hr] at hreturns
      obtain ⟨_, ⟨⟩, hrest⟩ := hreturns
      exact List.forall_mem_cons.mpr
        ⟨trivial, InZones.block (fun _ _ _ => trivial) hr (ih hrest)⟩
  | quote d q w r _ _ hq hw ih =>
      refine hcode (hq.noComment _) ?_
      rw [hq.behind_eq]
      refine uncontinued_of_tidyFrom hq hw ih ?_
      rw [withReturns_code hq.isLineEnd_eq_false, Tidy, tidyFrom_cons (hq.noComment _),
        hq.behind_eq] at hreturns
      rcases hq with rfl | rfl <;> exact hreturns
  | opening d c r _ _ ho ih =>
      obtain ⟨-, -, hq, hslash⟩ := Grammar.kinds_of_isOpening ho
      rw [withReturns_code (Grammar.isLineEnd_of_bracket (.inl ho)), Tidy,
        tidyFrom_cons (.of_ne hslash _), if_neg (by rintro rfl; cases ho), if_pos ho] at hreturns
      refine hcode (.of_ne hslash r) ?_
      rw [behind_of_not_isQuote hq]
      exact ih hreturns
  | closing d c r _ _ hclose ih =>
      obtain ⟨-, ho, hq, hslash⟩ := Grammar.kinds_of_isClosing hclose
      rw [withReturns_code (Grammar.isLineEnd_of_bracket (.inr hclose)), Tidy,
        tidyFrom_cons (.of_ne hslash _), if_neg (by rintro rfl; cases hclose), ho,
        if_neg Bool.false_ne_true, if_pos hclose] at hreturns
      refine hcode (.of_ne hslash r) ?_
      rw [behind_of_not_isQuote hq]
      exact ih hreturns
  | plain d c r _ _ hc hslash ho hclose hq ih =>
      refine hcode hc ?_
      rw [behind_of_not_isQuote hq]
      cases hline : isLineEnd c with
      | true => exact ih ((tidy_withReturns_lineEnd hline).mp hreturns)
      | false =>
          rw [withReturns_code hline, Tidy, tidyFrom_cons (noComment_withReturns hc), if_neg hslash,
            ho, hclose, behind_of_not_isQuote hq] at hreturns
          exact ih hreturns

end

/-- A text without strings that go on with the next line, and the same text with carriage returns. -/
structure Returned (s t : List Char) : Prop where
  same : t = withReturns s
  strings : InZones Uncontinued .code s

/-- The same behind a gap; in front of it, a line feed may miss the carriage return that has just
been taken. -/
def ReturnedBehind (s t : List Char) : Prop := Returned (skipGap s) (skipGap t)

theorem Returned.skip {s t : List Char} (h : Returned s t) (across : Bool) :
    Returned (skip across s) (Lexical.skip across t) where
  same := by rw [h.same, skip_withReturns]
  strings := h.strings.mono (zonedFrom_skip across s)

end SmallScript.Lexical

namespace SmallScript.Grammar

open Lexical Console Scan

theorem returned_rewriting : LineRewriting Returned ReturnedBehind where
  nil h := .inl h.same
  cons := by
    rintro d c r t - hc hline ⟨rfl, hstrings⟩
    refine ⟨withReturns r, withReturns_code hline r, noComment_withReturns hc, fun hq => ?_⟩
    have hbehind := hstrings.behind hc
    rw [behind_of_not_isQuote hq] at hbehind
    exact ⟨rfl, hbehind⟩
  lineEnd := by
    rintro d c r t - hline ⟨rfl, hstrings⟩
    have hblank := isGapBlank_of_isLineEnd hline
    have hbehind := hstrings.behind (.of_isGapBlank hblank r)
    rw [behind_of_isGapBlank hblank] at hbehind
    obtain ⟨c', r', hr, hc', hskip⟩ := withReturns_lineEnd hline r
    refine ⟨c', r', hr, hc', ?_, hbehind.mono (zonedFrom_skip true r)⟩
    rw [hskip]
    exact skip_withReturns true r
  string := by
    rintro q w r t hq hw ⟨rfl, hstrings⟩
    have hbehind := hstrings.behind (hq.noComment _)
    rw [hq.behind_eq] at hbehind
    refine ⟨withReturns r, ?_, rfl, hbehind.mono (zonedFrom_closed hq hw.closed r)⟩
    rw [withReturns_code hq.isLineEnd_eq_false, withReturns_whole hq hw r hbehind]
  line := by
    rintro r t ⟨rfl, -⟩
    exact ⟨_, withReturns_code rfl _⟩
  block := by
    rintro r u t hr ⟨rfl, hstrings⟩
    refine ⟨withReturns r, withReturns u, ?_, ?_, rfl, hstrings.mono ?_⟩
    · rw [withReturns_code rfl, withReturns_code rfl]
    · rw [blockEnd_withReturns, hr]
      rfl
    · exact List.subset_cons_of_subset _ (zonedFrom_block hr _ _)
  skip across _ h := h.skip across
  leave h := h.skip true
  gap _ h := h

end SmallScript.Grammar

namespace SmallScript.Program

open Lexical Grammar Console Scan

/-- A program whose lines end by line feeds is the same with carriage returns in front of them,
exactly if none of its strings goes on with the next line; else it is no program any more. -/
theorem parse_withReturns {source : String} {t : Program} (h : parse source = .ok t) :
    (parse (String.ofList (withReturns source.toList)) = .ok t ↔
      InZones Uncontinued .code source.toList) ∧
    ∀ t', parse (String.ofList (withReturns source.toList)) = .ok t' → t' = t := by
  rw [parse, String.toList_ofList]
  rw [parse] at h
  generalize source.toList = s at h
  have htidy := tidy_of_ofChars? h
  have hsame (hstrings : InZones Uncontinued .code s) : ofChars? (withReturns s) = .ok t := by
    obtain ⟨r, hr, hend⟩ := ofChars?_eq_ok.mp h
    have hfollow := returned_rewriting.follow (s.length + 1)
    have hfirm : Firm (Rewriting.Rewritten Returned 0) := fun _ h => h.rewrites.same
    have hstart := returned_rewriting.left ⟨htidy, rfl, hstrings⟩
    rcases hfollow.stmts 0 hfirm s (withReturns s) (Nat.lt_succ_self _) hstart with
      ⟨hnone, -⟩ | ⟨t', r', u', hr', hu', hrest, -, -⟩
    · cases hr.symm.trans hnone
    · cases hr.symm.trans hr'
      refine ofChars?_eq_ok.mpr ⟨u', hu', ?_⟩
      rw [hrest.rewrites.same, hend]
      rfl
  have hstrings {t' : Program} (h' : ofChars? (withReturns s) = .ok t') :
      InZones Uncontinued .code s :=
    uncontinued_of_tidy htidy (tidy_of_ofChars? h')
  refine ⟨⟨hstrings, hsame⟩, fun t' h' => ?_⟩
  rw [hsame (hstrings h')] at h'
  cases h'
  rfl

/-- Statements that end with their lines, a comment and a `return` alone on its line. -/
theorem parse_withReturns_return :
    parse "function f() \x7b return // a\n 'a\\n' \x7d" =
      .ok [.function (.mk (some "f") [] [.returnValue none, .expr (.string "a\n")])] ∧
    parse "function f() \x7b return // a\r\n 'a\\n' \x7d" =
      .ok [.function (.mk (some "f") [] [.returnValue none, .expr (.string "a\n")])] := by
  have h : parse "function f() \x7b return // a\n 'a\\n' \x7d" =
      .ok [.function (.mk (some "f") [] [.returnValue none, .expr (.string "a\n")])] := by cbv
  exact ⟨h, (parse_withReturns h).1.mpr (by decide)⟩

end SmallScript.Program
