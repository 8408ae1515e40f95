import SmallScript.Proofs.Lexical.Bracket

namespace SmallScript.Lexical

/-- No token with `c` at its end goes on with `k`: `c` ends what it ends anywhere, or the next
character is a closing brace. -/
def Parted (k : List Char) (c : Char) : Prop :=
  c = ';' ∨ isGapBlank true c = true ∨ k.head? = some '\x7d'

inductive Joins (k : List Char) : Nat → List Char → Prop where
  | nil : Joins k 0 []
  | line {d : Nat} {s : List Char} (hend : (s.dropWhile fun c => !isLineEnd c) ≠ [])
      (h : Joins k d (s.dropWhile fun c => !isLineEnd c)) : Joins k d ('/' :: '/' :: s)
  | block {d : Nat} {s r : List Char} (hend : blockEnd true s = some r) (h : Joins k d r) :
      Joins k d ('/' :: '*' :: s)
  | quote {d : Nat} {q : Char} {w s r : List Char} (hq : IsQuote q) (hw : Closed q w)
      (hs : s = w ++ r) (h : Joins k d r) : Joins k d (q :: s)
  | opening {d : Nat} {c : Char} {s : List Char} (ho : isOpening c = true) (h : Joins k (d + 1) s) :
      Joins k d (c :: s)
  | closing {d : Nat} {c : Char} {s : List Char} (hclose : isClosing c = true) (h : Joins k d s) :
      Joins k (d + 1) (c :: s)
  | plain {d : Nat} {c : Char} {s : List Char} (hc : NoComment c (s ++ k)) (ho : isOpening c = false)
      (hclose : isClosing c = false) (hq : isQuote c = false) (hend : s = [] → Parted k c)
      (h : Joins k d s) : Joins k d (c :: s)

namespace Joins

variable {k s r : List Char} {d : Nat} {c : Char}

theorem kinds_of_isQuote (h : IsQuote c) :
    c ≠ '/' ∧ isOpening c = false ∧ isClosing c = false := by
  rcases h with rfl | rfl <;> decide

theorem behind_line (h : Joins k d ('/' :: '/' :: r)) :
    (r.dropWhile fun c => !isLineEnd c) ≠ [] ∧ Joins k d (r.dropWhile fun c => !isLineEnd c) := by
  cases h with
  | line hend h => exact ⟨hend, h⟩
  | quote hq => exact ((kinds_of_isQuote hq).1 rfl).elim
  | opening ho => cases ho
  | closing hclose => cases hclose
  | plain hc => exact ((hc _ rfl).1 rfl).elim

theorem behind_block (h : Joins k d ('/' :: '*' :: s)) :
    ∃ r, blockEnd true s = some r ∧ Joins k d r := by
  cases h with
  | block hend h => exact ⟨_, hend, h⟩
  | quote hq => exact ((kinds_of_isQuote hq).1 rfl).elim
  | opening ho => cases ho
  | closing hclose => cases hclose
  | plain hc => exact ((hc _ rfl).2 rfl).elim

theorem behind_quote (h : Joins k d (c :: s)) (hquote : IsQuote c) :
    ∃ w r, Closed c w ∧ s = w ++ r ∧ Joins k d r := by
  obtain ⟨hslash, hopening, hclosing⟩ := kinds_of_isQuote hquote
  cases h with
  | line => exact (hslash rfl).elim
  | block => exact (hslash rfl).elim
  | quote hq hw hs h => exact ⟨_, _, hw, hs, h⟩
  | opening ho => cases hopening.symm.trans ho
  | closing hclose => cases hclosing.symm.trans hclose
  | plain hc ho hclose hq => cases hq.symm.trans (isQuote_iff.mpr hquote)

theorem behind_opening (h : Joins k d (c :: s)) (hopening : isOpening c = true) :
    Joins k (d + 1) s := by
  cases h with
  | line => cases hopening
  | block => cases hopening
  | quote hq => cases (kinds_of_isQuote hq).2.1.symm.trans hopening
  | opening ho h => exact h
  | closing hclose =>
      simp only [isClosing, Bool.or_eq_true, beq_iff_eq] at hclose
      rcases hclose with (rfl | rfl) | rfl <;> cases hopening
  | plain hc ho => cases ho.symm.trans hopening

theorem behind_plain (h : Joins k d (c :: s)) (hcode : NoComment c s) (hopening : isOpening c = false)
    (hclosing : isClosing c = false) (hquote : isQuote c = false) :
    NoComment c (s ++ k) ∧ (s = [] → Parted k c) ∧ Joins k d s := by
  cases h with
  | line => exact ((hcode _ rfl).1 rfl).elim
  | block => exact ((hcode _ rfl).2 rfl).elim
  | quote hq => cases hquote.symm.trans (isQuote_iff.mpr hq)
  | opening ho => cases hopening.symm.trans ho
  | closing hclose => cases hclosing.symm.trans hclose
  | plain hc _ _ _ hend h => exact ⟨hc, hend, h⟩

theorem behind_blank {across : Bool} (h : Joins k d (c :: s)) (hc : isGapBlank across c = true) :
    Joins k d s := by
  obtain ⟨-, hopen, hclose⟩ := not_bracket_of_isGapBlank hc
  exact (h.behind_plain (.of_isGapBlank hc s) hopen hclose (isQuote_of_isGapBlank hc)).2.2

theorem noComment_append (h : Joins k d (c :: s)) (hcode : NoComment c s) : NoComment c (s ++ k) := by
  by_cases hc : c = '/'
  · subst hc
    exact (h.behind_plain hcode rfl rfl rfl).1
  · exact fun _ hslash => (hc hslash).elim

theorem skip (hk : ∀ across, Lexical.skip across k = k) (across : Bool) (h : Joins k d s) :
    Lexical.skip across (s ++ k) = Lexical.skip across s ++ k ∧ Joins k d (Lexical.skip across s) := by
  induction s using gap_induction across with
  | nil => exact ⟨hk across, h⟩
  | blank c r hc ih =>
      rw [List.cons_append, skip_blank hc, skip_blank hc]
      exact ih (h.behind_blank hc)
  | line r ih =>
      obtain ⟨hend, h⟩ := h.behind_line
      rw [List.cons_append, List.cons_append, skip_line, skip_line, List.dropWhile_append, if_neg]
      · exact ih h
      · rwa [List.isEmpty_iff]
  | block r r' hr ih =>
      obtain ⟨u, hu, h⟩ := h.behind_block
      cases (blockEnd_across hr).symm.trans hu
      rw [List.cons_append, List.cons_append, skip_block, skip_block, hr, blockEnd_append hr]
      exact ih h
  | stop c r hc hline hblock =>
      rw [skip_stop hc hline hblock]
      refine ⟨?_, h⟩
      by_cases hstar : ∃ u, c = '/' ∧ r = '*' :: u
      · obtain ⟨u, rfl, rfl⟩ := hstar
        obtain ⟨r', hr', -⟩ := h.behind_block
        cases across with
        | true => cases (hblock u rfl rfl).symm.trans hr'
        | false =>
            refine skip_stop hc (fun _ _ => nofun) fun v _ hv => ?_
            cases hv
            exact blockEnd_inline_append hr' (hblock u rfl rfl) k
      · have hcode := h.noComment_append fun u hslash =>
          ⟨hline u hslash, fun hr => hstar ⟨u, hslash, hr⟩⟩
        exact skip_stop hc (fun u hslash => (hcode u hslash).1)
          fun u hslash hr => ((hcode u hslash).2 hr).elim

/-- The brackets in front of a text that joins another one are closed in front of the joint. -/
theorem exists_closing (h : Joins k (d + 1) s) : ∃ r, Lexical.closing d s = some r ∧ Joins k 0 r := by
  generalize he : d + 1 = e at h
  induction h generalizing d with
  | nil => cases he
  | line hend h ih =>
      rw [closing_line]
      exact ih he
  | block hend h ih =>
      rw [closing_block, hend]
      exact ih he
  | @quote e q w s r hq hw hs h ih =>
      obtain ⟨hslash, hopening, hclosing⟩ := kinds_of_isQuote hq
      rw [hs, closing_behind (fun _ h => (hslash h).elim) hopening hclosing, hq.behind_eq,
        codeFrom_closed hq hw]
      exact ih he
  | @opening e c s ho h ih =>
      rw [closing_opening (fun _ hc => by subst hc; cases ho) ho]
      exact ih (by rw [he])
  | @closing e c s hclose h ih =>
      cases he
      rw [closing_closing (fun _ hc => by subst hc; cases hclose) hclose]
      cases e with
      | zero => exact ⟨s, rfl, h⟩
      | succ e => exact ih rfl
  | @plain e c s hc ho hclose hq hend h ih =>
      have hcode : NoComment c s := fun r hslash => ⟨fun hr => (hc (r ++ k) hslash).1 (by rw [hr]; rfl),
        fun hr => (hc (r ++ k) hslash).2 (by rw [hr]; rfl)⟩
      rw [closing_plain hcode ho hclose hq]
      exact ih he

end Joins

end SmallScript.Lexical
