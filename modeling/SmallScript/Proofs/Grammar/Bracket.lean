import SmallScript.Proofs.Grammar.Knot
import SmallScript.Proofs.Lexical.Bracket

namespace SmallScript.Grammar

open Lexical Scan

/-- A text and itself in front of `k`. Its innermost bracket and `d` more are closed in front of
the text `x`, if they are. -/
structure Reaching (k : List Char) (x : Option (List Char)) (d : Nat) (s t : List Char) : Prop where
  append : t = s ++ k
  closing : closing d s = x

namespace Reaching

variable {k : List Char} {x : Option (List Char)} {d : Nat} {s t r : List Char} {c : Char}

/-- Something follows only behind brackets that are closed. -/
def Ends (k : List Char) (x : Option (List Char)) : Prop := k ≠ [] → x ≠ none

theorem tail (h : Reaching k x d (c :: r) t) (hc : NoComment c r) (ho : isOpening c = false)
    (hclose : isClosing c = false) (hq : isQuote c = false) : Reaching k x d r (r ++ k) :=
  ⟨rfl, (closing_plain hc ho hclose hq).symm.trans h.closing⟩

theorem slash {r' : List Char} (h : Settled (Reaching k x) d ('/' :: r) ('/' :: r')) :
    Operands (Reaching k x) d r r' := by
  have hr : r' = r ++ k := (List.cons.inj h.tied.append).2
  by_cases hstar : ∃ u, r = '*' :: u
  · obtain ⟨u, rfl⟩ := hstar
    exact .inr ⟨u, u ++ k, rfl, hr⟩
  · have hc : NoComment '/' r := by
      refine fun u _ => ⟨?_, fun hu => hstar ⟨u, hu⟩⟩
      rintro rfl
      exact skip_line_ne u h.left
    exact .inl (hr ▸ h.tied.tail hc rfl rfl rfl)

variable (hx : Ends k x)

include hx

theorem nil_of_closing (h : Lexical.closing d s = x) (hs : Lexical.closing d s = none) : k = [] := by
  by_contra hk
  exact hx hk (h.symm.trans hs)

theorem skip_append (across : Bool) (h : Lexical.closing d s = x) :
    skip across (s ++ k) = skip across s ++ k := by
  by_cases hk : k = []
  · rw [hk, List.append_nil, List.append_nil]
  induction s using gap_induction across with
  | nil => exact (hk (nil_of_closing hx h rfl)).elim
  | blank c r hc ih =>
      rw [closing_blank hc] at h
      rw [List.cons_append, skip_blank hc, skip_blank hc, ih h]
  | line r ih =>
      rw [closing_line] at h
      have hend : r.dropWhile (fun c => !isLineEnd c) ≠ [] := by
        intro hnil
        exact hk (nil_of_closing hx h (by rw [hnil]; rfl))
      rw [List.cons_append, List.cons_append, skip_line, skip_line, List.dropWhile_append, if_neg,
        ih h]
      rwa [List.isEmpty_iff]
  | block r r' hr ih =>
      rw [closing_block, blockEnd_across hr, Option.bind_some] at h
      rw [List.cons_append, List.cons_append, skip_block, skip_block, hr, blockEnd_append hr]
      exact ih h
  | stop c r hc hline hblock =>
      rw [skip_stop hc hline hblock, List.cons_append]
      cases r with
      | nil =>
          refine skip_stop hc (fun r' hslash => ?_) fun r' hslash => ?_ <;>
            exact (hk (nil_of_closing hx h (by rw [hslash]; rfl))).elim
      | cons c' r =>
          refine skip_stop hc (fun r' hslash hr => ?_) fun r' hslash hr => ?_
          · cases hr
            exact hline _ hslash rfl
          · cases hr
            subst hslash
            cases hend : blockEnd true r with
            | none =>
                refine (hk (nil_of_closing hx h ?_)).elim
                rw [closing_block, hend]
                rfl
            | some r' =>
                cases across with
                | true => cases (hblock r rfl rfl).symm.trans hend
                | false => exact blockEnd_inline_append hend (hblock r rfl rfl) k

theorem skip (across : Bool) (h : Reaching k x d s t) :
    Reaching k x d (skip across s) (skip across t) where
  append := by rw [h.append, skip_append hx across h.closing]
  closing := by rw [closing_skip, h.closing]

theorem content {q : Char} (hq : IsQuote q) (h : closingOf d (codeFrom (.quote q) r) = x) :
    Content q (Reaching k x d) r (r ++ k) := by
  rcases unclosed_or_closed q r with hr | ⟨w, u, hw, rfl⟩
  · have hk : k = [] := by
      by_contra hk
      rw [codeFrom_unclosed hq hr] at h
      exact hx hk h.symm
    rw [hk, List.append_nil]
    exact hr.content
  · rw [codeFrom_closed hq hw] at h
    rw [List.append_assoc]
    exact hw.content ⟨rfl, h⟩

theorem fronts (h : Reaching k x d s t) : Fronts (Reaching k x) d s t := by
  rw [h.append]
  cases s with
  | nil =>
      rw [nil_of_closing hx h.closing rfl]
      exact .nil
  | cons c r =>
      have hcode {p : Char → Bool} (hp : p '/' = false) (hc : p c = true) : NoComment c r := by
        rintro _ rfl
        exact (Bool.false_ne_true (hp.symm.trans hc)).elim
      refine .cons c ⟨fun hc => ?_, fun hc => ?_, fun e he hc => ?_, fun hq => ?_⟩
      · simp only [isOrdinary, Bool.not_eq_true', Bool.or_eq_false_iff] at hc
        obtain ⟨⟨⟨⟨⟨⟨ho, hclose⟩, hq⟩, hslash⟩, -⟩, -⟩, -⟩ := hc
        refine h.tail (fun _ hc => ?_) ho hclose hq
        rw [hc] at hslash
        cases hslash
      · exact ⟨rfl, (closing_opening (hcode rfl hc) hc).symm.trans h.closing⟩
      · have hclosing := closing_closing (d := d) (hcode rfl hc) hc
        rw [he, if_neg (Nat.succ_ne_zero e), Nat.add_sub_cancel, ← he, h.closing] at hclosing
        exact ⟨rfl, hclosing.symm⟩
      · have hquote := isQuote_iff.mpr hq
        have hbracket : isOpening c = false ∧ isClosing c = false := by
          rcases hq with rfl | rfl <;> exact ⟨rfl, rfl⟩
        refine content hx hq (Eq.trans ?_ h.closing)
        rw [closing_behind (hcode rfl hquote) hbracket.1 hbracket.2, Zone.behind, if_pos hquote]

theorem noComment_append (h : Lexical.closing d (c :: r) = x) (hc : NoComment c r) :
    NoComment c (r ++ k) := by
  rintro u rfl
  cases r with
  | nil =>
      rw [nil_of_closing hx h rfl]
      exact ⟨nofun, nofun⟩
  | cons c r =>
      refine ⟨?_, ?_⟩ <;> rintro ⟨⟩
      · exact (hc r rfl).1 rfl
      · exact (hc r rfl).2 rfl

theorem lineBreak (n : Nat) : Follows 0 n (Reaching k x d) (Reaching k x d)
    (do inlineGap; atLineEnd <|> blockComment) (do inlineGap; atLineEnd <|> blockComment) := by
  refine lineBreak_follows n (fun _ _ h => h.skip hx false) ?_ ?_ ?_ ?_
  · rintro t ⟨rfl, h⟩
    rw [nil_of_closing hx h rfl]
    rfl
  · rintro r r' t ⟨rfl, h⟩ hr
    rw [closing_block, hr] at h
    exact ⟨r ++ k, r' ++ k, rfl, blockEnd_append hr k, rfl, h⟩
  · rintro r t ⟨rfl, h⟩ hr
    rw [nil_of_closing hx h (by rw [closing_block, hr]; rfl), List.append_nil, atLineEnd_cons,
      blockComment_block, hr]
    rfl
  · rintro c r t hc ⟨rfl, h⟩
    refine ⟨r ++ k, rfl, noComment_append hx h hc, fun hline => ⟨rfl, ?_⟩⟩
    exact (closing_blank (isGapBlank_of_isLineEnd hline) r).symm.trans h

theorem firm (d : Nat) : Firm (Reaching k x d) := fun _ h => by
  rw [h.append, nil_of_closing hx h.closing rfl]
  rfl

theorem tie : Tie (Reaching k x) where
  fronts := fronts hx
  firm d := firm hx (d + 1)
  gap h := h.skip hx true
  turn hturn h := hturn.tail (fronts hx h)
  leave h _ := h
  gapLeft h := ⟨h.skip hx true, h.skip hx true⟩
  inlineGap h := h.skip hx false
  slash := slash
  lineBreak n _ := lineBreak hx n

theorem sameLine (n : Nat) :
    Follows 0 n (Reaching k x d) (Reaching k x d) sameLine sameLine := by
  refine ((tie hx).scanInlineGap n).bind fun _ => ?_
  rintro s t - h
  rw [h.append]
  cases s with
  | nil =>
      rw [nil_of_closing hx h.closing rfl] at h ⊢
      exact .inr ⟨(), [], [], rfl, rfl, ⟨rfl, h.closing⟩, Nat.le_refl _, Nat.le_refl _⟩
  | cons c r =>
      simp only [List.cons_append, notNext]
      cases isLineEnd c with
      | true => exact .inl ⟨rfl, rfl⟩
      | false => exact .inr ⟨(), _, _, rfl, rfl, ⟨rfl, h.closing⟩, Nat.le_refl _, Nat.le_refl _⟩

theorem follow (n : Nat) : grammar.Follow (Reaching k x) n grammar :=
  (tie hx).grammar (fun n _ h => (tie hx).jumpAtFront h (sameLine hx n)) n

theorem closed (n : Nat) {c : Char} (hc : isClosing c = true) :
    Follows 1 n (Reaching k x 0) (fun r t => x = some r ∧ t = r ++ k) (mark c) (mark c) := by
  refine ((tie hx).scanGap n).bind fun _ => ?_
  rintro s t - ⟨h, -, -⟩
  rw [h.append]
  cases s with
  | nil =>
      rw [nil_of_closing hx h.closing rfl]
      exact .inl ⟨rfl, rfl⟩
  | cons c' r =>
      by_cases hc' : c' = c
      · subst hc'
        have hclosing := closing_closing (d := 0) (r := r)
          (fun _ h => ((kinds_of_isClosing hc).2.2.2 h).elim) hc
        rw [h.closing, if_pos rfl] at hclosing
        exact .inr ⟨(), r, r ++ k, if_pos rfl, if_pos rfl, ⟨hclosing, rfl⟩, Nat.le_refl _,
          Nat.le_refl _⟩
      · exact .inl ⟨if_neg hc', if_neg hc'⟩

theorem inside (n : Nat) : Follows 0 n (Reaching k x 0) (fun r t => x = some r ∧ t = r ++ k)
    (do let e ← grammar.expr; mark ')'; return e) (do let e ← grammar.expr; mark ')'; return e) :=
  ((follow hx n).expr 0).weaken.bind fun e => (closed hx n rfl).weaken.bind fun _ => .pure e

end Reaching

theorem parenthesised_append {s : List Char} {e : Expr}
    (h : parenthesised grammar s = some (e, [])) (k : List Char) :
    parenthesised grammar (s ++ k) = some (e, k) := by
  cases s with
  | nil => cases h
  | cons c s =>
      by_cases hc : c = '('
      · subst hc
        have hclosed : closing 0 s = some [] := by
          rcases Reaching.inside (k := []) (x := closing 0 s) (fun hk => (hk rfl).elim) (s.length + 1)
            s s (Nat.lt_succ_self _) ⟨(List.append_nil s).symm, rfl⟩ with
            ⟨hfail, -⟩ | ⟨e', r, r', hr, -, ⟨hrest, -⟩, -, -⟩
          · cases hfail.symm.trans h
          · cases hr.symm.trans h
            exact hrest
        rcases Reaching.inside (k := k) (x := some []) (fun _ => nofun) (s.length + 1)
          s (s ++ k) (Nat.lt_succ_self _) ⟨rfl, hclosed⟩ with
          ⟨hfail, -⟩ | ⟨e', r, r', hr, hr', ⟨hrest, happend⟩, -, -⟩
        · cases hfail.symm.trans h
        · cases hr.symm.trans h
          rw [happend] at hr'
          exact hr'
      · have hfail : parenthesised grammar (c :: s) = none := by
          rw [parenthesised, bind_apply, char, if_neg hc]
          rfl
        cases hfail.symm.trans h

end SmallScript.Grammar
