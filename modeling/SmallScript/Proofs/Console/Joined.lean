import SmallScript.Console.Entry
import SmallScript.Proofs.Grammar.Rewriting
import Mathlib

namespace SmallScript.Console

open Lexical Grammar Scan

/-- No string goes on with the next line. -/
def Uncontinued : Zone → List Char → Prop
  | .quote _, s => s.take 2 ≠ ['\\', '\n']
  | _, _ => True

instance (z : Zone) : DecidablePred (Uncontinued z) := fun s =>
  match z with
  | .quote _ => inferInstanceAs (Decidable (s.take 2 ≠ ['\\', '\n']))
  | .code | .line | .block _ _ => .isTrue trivial

section

variable {c q : Char} {r s w : List Char} {across : Bool}

theorem joinLines_cons (h : c ≠ '\\') (r : List Char) : joinLines (c :: r) = c :: joinLines r :=
  joinLines.eq_2 c r fun _ hc => (h hc).elim

theorem joinLines_uncontinued (h : Uncontinued (.quote q) (c :: r)) :
    joinLines (c :: r) = c :: joinLines r := by
  refine joinLines.eq_2 c r ?_
  rintro u rfl rfl
  exact h rfl

theorem eq_of_joinLines {u : List Char} (hc : c ≠ '\n') (h : joinLines s = c :: u) :
    ∃ r, s = c :: r ∧ u = joinLines r := by
  fun_cases joinLines s with
  | case1 r =>
      cases h
      exact (hc rfl).elim
  | case2 c' r hsplit =>
      rw [joinLines.eq_2 c' r hsplit] at h
      cases h
      exact ⟨r, rfl, rfl⟩
  | case3 => cases h

theorem joinLines_dropWhile (r : List Char) :
    (joinLines r).dropWhile (fun c => !isLineEnd c) =
      joinLines (r.dropWhile fun c => !isLineEnd c) := by
  fun_induction joinLines r with
  | case1 r ih => rfl
  | case2 c r h ih =>
      cases hc : isLineEnd c with
      | true =>
          have hslash : c ≠ '\\' := by
            rintro rfl
            cases hc
          rw [List.dropWhile_cons_of_neg (by simp [hc]), List.dropWhile_cons_of_neg (by simp [hc]),
            joinLines_cons hslash]
      | false =>
          rw [List.dropWhile_cons_of_pos (by simp [hc]), List.dropWhile_cons_of_pos (by simp [hc]), ih]
  | case3 => rfl

theorem blockEnd_joinLines (across : Bool) (r : List Char) :
    blockEnd across (joinLines r) = (blockEnd across r).map joinLines := by
  fun_induction joinLines r with
  | case1 r ih => cases across <;> simp [blockEnd, isLineEnd, ih]
  | case2 c r h ih =>
      by_cases hend : ∃ u, c = '*' ∧ r = '/' :: u
      · obtain ⟨u, rfl, rfl⟩ := hend
        rw [joinLines_cons (by decide)]
        rfl
      · rw [blockEnd.eq_2 _ _ _ fun u hc hr => hend ⟨u, hc, hr⟩, blockEnd.eq_2, ih]
        · split <;> rfl
        · intro u hc hr
          obtain ⟨u', hr', -⟩ := eq_of_joinLines (by decide) hr
          exact hend ⟨u', hc, hr'⟩
  | case3 => rfl

theorem noComment_joinLines (h : NoComment c r) : NoComment c (joinLines r) := by
  intro u hc
  refine ⟨fun hr => ?_, fun hr => ?_⟩ <;>
    obtain ⟨u', hr', -⟩ := eq_of_joinLines (by decide) hr
  · exact (h u' hc).1 hr'
  · exact (h u' hc).2 hr'

theorem joinLines_closed (hq : IsQuote q) (h : Closed q w) (r : List Char)
    (hw : InZones Uncontinued (.quote q) (w ++ r)) : joinLines (w ++ r) = w ++ joinLines r := by
  induction h with
  | close => exact joinLines_cons (ne_backslash hq).symm r
  | @plain c s hc hq' _ ih =>
      have hzones : zonedFrom (.quote q) (c :: (s ++ r)) =
          (.quote q, c :: (s ++ r)) :: zonedFrom (.quote q) (s ++ r) := by
        rw [zonedFrom.eq_11 _ _ _ fun _ _ h => (hc h).elim, if_neg hq']
      rw [List.cons_append, joinLines_cons hc,
        ih fun x hx => hw x (hzones ▸ List.mem_cons_of_mem _ hx)]
      rfl
  | @escaped c s _ ih =>
      have hslash := hw (.quote q, '\\' :: c :: (s ++ r)) (List.mem_cons_self ..)
      have hnext := hw (.quote q, c :: (s ++ r)) (List.mem_cons_of_mem _ (List.mem_cons_self ..))
      rw [List.cons_append, List.cons_append, joinLines_uncontinued hslash,
        joinLines_uncontinued hnext,
        ih fun x hx => hw x (List.mem_cons_of_mem _ (List.mem_cons_of_mem _ hx))]
      rfl

theorem ne_of_tidy {d : Nat} (h : Tidy d (c :: r)) : c ≠ '\\' := by
  rintro rfl
  cases h

theorem skip_joinLines {d : Nat} (across : Bool) (hs : Tidy d s) :
    skip across (joinLines s) = joinLines (skip across s) := by
  induction s using gap_induction across with
  | nil => rfl
  | blank c r hc ih =>
      rw [skip_blank hc, joinLines_cons (ne_of_tidy hs), skip_blank hc, ih ((tidy_blank hc).mp hs)]
  | line r ih =>
      rw [skip_line, joinLines_cons (by decide), joinLines_cons (by decide), skip_line,
        joinLines_dropWhile, ih (tidy_line.mp hs)]
  | block r r' hr ih =>
      obtain ⟨u, hu, htidy⟩ := tidy_block.mp hs
      cases (blockEnd_across hr).symm.trans hu
      rw [skip_block, joinLines_cons (by decide), joinLines_cons (by decide), skip_block,
        blockEnd_joinLines, hr]
      exact ih htidy
  | stop c r hc hline hblock =>
      rw [skip_stop hc hline hblock, joinLines_cons (ne_of_tidy hs)]
      refine skip_stop hc (fun u hslash hr => ?_) fun u hslash hr => ?_ <;>
        obtain ⟨u', hr', rfl⟩ := eq_of_joinLines (by decide) hr
      · exact hline u' hslash hr'
      · rw [blockEnd_joinLines, hblock u' hslash hr']
        rfl

end

structure Joined (s t : List Char) : Prop where
  same : t = joinLines s
  strings : InZones Uncontinued .code s

theorem joined_rewriting : Rewriting Joined where
  nil h := .inl h.same
  cons := by
    rintro d c r t htidy hc ⟨rfl, hstrings⟩
    refine ⟨joinLines r, joinLines_cons (ne_of_tidy htidy) r, noComment_joinLines hc, fun hq => ?_⟩
    have hbehind := hstrings.behind hc
    rw [behind_of_not_isQuote hq] at hbehind
    exact ⟨rfl, hbehind⟩
  string := by
    rintro q w r t hq hw ⟨rfl, hstrings⟩
    have hbehind := hstrings.behind (hq.noComment _)
    rw [hq.behind_eq] at hbehind
    refine ⟨joinLines r, ?_, rfl, hbehind.mono (zonedFrom_closed hq hw.closed r)⟩
    rw [joinLines_cons (ne_backslash hq).symm, joinLines_closed hq hw.closed r hbehind]
  line := by
    rintro r t ⟨rfl, -⟩
    exact ⟨_, joinLines_cons (by decide) _⟩
  block := by
    rintro r u t hr ⟨rfl, hstrings⟩
    refine ⟨joinLines r, joinLines u, ?_, ?_, rfl, hstrings.mono ?_⟩
    · rw [joinLines_cons (by decide), joinLines_cons (by decide)]
    · rw [blockEnd_joinLines, hr]
      rfl
    · exact List.subset_cons_of_subset _ (zonedFrom_block hr _ _)
  skip := by
    rintro d s t across htidy ⟨rfl, hstrings⟩
    exact ⟨skip_joinLines across htidy, hstrings.mono (zonedFrom_skip across s)⟩

/-- A program is the same with its lines joined. -/
theorem ofChars?_joinLines {s : List Char} {t : Program} (h : Program.ofChars? s = .ok t)
    (hstrings : InZones Uncontinued .code s) : Program.ofChars? (joinLines s) = .ok t := by
  obtain ⟨r, hr, hend⟩ := ofChars?_eq_ok.mp h
  have hfollow := joined_rewriting.follow (s.length + 1)
  have hfirm : Firm (Rewriting.Rewritten Joined 0) := fun _ h => h.rewrites.same
  rcases hfollow.stmts 0 hfirm s (joinLines s) (Nat.lt_succ_self _)
    ⟨tidy_of_ofChars? h, rfl, hstrings⟩ with ⟨hnone, -⟩ | ⟨t', r', u', hr', hu', hrest, -, -⟩
  · cases hr.symm.trans hnone
  · cases hr.symm.trans hr'
    refine ofChars?_eq_ok.mpr ⟨u', hu', ?_⟩
    have hskip := (joined_rewriting.skipped true hrest).rewrites.same
    rw [show Lexical.skip true r = [] from hend] at hskip
    exact hskip

end SmallScript.Console
