import SmallScript.Proofs.Lexical.Bracket
import Mathlib

namespace SmallScript.Lexical

/-- Whether a text is in order, with `d` open brackets in front of it. -/
def tidyFrom : Nat → Zone → List Char → Bool
  | d, .code, '/' :: '/' :: r => tidyFrom d .line r
  | d, .code, '/' :: '*' :: r => tidyFrom d (.block ('/' :: '*' :: r) false) r
  | d, .code, c :: r =>
    if c = '\\' then false
    else if isOpening c then tidyFrom (d + 1) .code r
    else if isClosing c then d != 0 && tidyFrom (d - 1) .code r
    else tidyFrom d (.behind c) r
  | d, .code, [] => d == 0
  | d, .line, c :: r => if isLineEnd c then tidyFrom d .code r else tidyFrom d .line r
  | d, .line, [] => d == 0
  | d, .block _ _, '*' :: '/' :: r => tidyFrom d .code r
  | d, .block start crosses, c :: r => tidyFrom d (.block start (crosses || isLineEnd c)) r
  | _, .block _ _, [] => false
  | d, .quote q, '\\' :: _ :: r => tidyFrom d (.quote q) r
  | d, .quote q, c :: r =>
    if c = '\n' ∨ c = '\r' then false
    else tidyFrom d (if c = q then .code else .quote q) r
  | _, .quote _, [] => false

def Tidy (d : Nat) (s : List Char) : Prop := tidyFrom d .code s = true

instance (d : Nat) : DecidablePred (Tidy d) := fun s =>
  inferInstanceAs (Decidable (tidyFrom d .code s = true))

/-- The rests of a text, each with the zone of its first character. The end of a line is code, and
belongs to the comment that it ends as well. -/
def zonedFrom : Zone → List Char → List (Zone × List Char)
  | .code, '/' :: '/' :: r => (.code, '/' :: '/' :: r) :: zonedFrom .line r
  | .code, '/' :: '*' :: r =>
    (.code, '/' :: '*' :: r) :: zonedFrom (.block ('/' :: '*' :: r) false) r
  | .code, c :: r => (.code, c :: r) :: zonedFrom (.behind c) r
  | .code, [] => []
  | .line, c :: r =>
    (.line, c :: r) ::
      if isLineEnd c then (.code, c :: r) :: zonedFrom .code r else zonedFrom .line r
  | .line, [] => []
  | .block start crosses, '*' :: '/' :: r =>
      (.block start crosses, '*' :: '/' :: r) :: zonedFrom .code r
  | .block start crosses, c :: r =>
    (.block start crosses, c :: r) :: zonedFrom (.block start (crosses || isLineEnd c)) r
  | .block _ _, [] => []
  | .quote q, '\\' :: c :: r =>
    (.quote q, '\\' :: c :: r) :: (.quote q, c :: r) :: zonedFrom (.quote q) r
  | .quote q, c :: r => (.quote q, c :: r) :: zonedFrom (if c = q then .code else .quote q) r
  | .quote _, [] => []

def InZones (P : Zone → List Char → Prop) (z : Zone) (s : List Char) : Prop :=
  ∀ x ∈ zonedFrom z s, P x.1 x.2

instance (P : Zone → List Char → Prop) [∀ z, DecidablePred (P z)] (z : Zone) (s : List Char) :
    Decidable (InZones P z s) :=
  inferInstanceAs (Decidable (∀ x ∈ zonedFrom z s, P x.1 x.2))

variable {d : Nat} {c q : Char} {r w : List Char} {across : Bool}

section

variable (hc : NoComment c r)

include hc

theorem tidyFrom_cons : tidyFrom d .code (c :: r) =
    if c = '\\' then false
    else if isOpening c then tidyFrom (d + 1) .code r
    else if isClosing c then d != 0 && tidyFrom (d - 1) .code r
    else tidyFrom d (.behind c) r :=
  tidyFrom.eq_3 d c r (fun r' h => (hc r' h).1) fun r' h => (hc r' h).2

theorem zonedFrom_cons :
    zonedFrom .code (c :: r) = (.code, c :: r) :: zonedFrom (.behind c) r :=
  zonedFrom.eq_3 c r (fun r' h => (hc r' h).1) fun r' h => (hc r' h).2

end

@[simp] theorem tidy_nil : Tidy d [] ↔ d = 0 := by simp [Tidy, tidyFrom]

theorem tidy_blank (h : isGapBlank across c = true) : Tidy d (c :: r) ↔ Tidy d r := by
  obtain ⟨hslash, hopen, hclose⟩ := not_bracket_of_isGapBlank h
  rw [Tidy, tidyFrom_cons (.of_isGapBlank h r), if_neg hslash, hopen, hclose,
    behind_of_isGapBlank h]
  rfl

theorem tidy_line : Tidy d ('/' :: '/' :: r) ↔ Tidy d (r.dropWhile fun c => !isLineEnd c) := by
  have hline : tidyFrom d .line r = true ↔ Tidy d (r.dropWhile fun c => !isLineEnd c) := by
    induction r with
    | nil => rfl
    | cons c r ih =>
        rw [tidyFrom]
        cases hc : isLineEnd c with
        | false => simpa [hc] using ih
        | true =>
            rw [List.dropWhile_cons_of_neg (by simp [hc]), tidy_blank (isGapBlank_of_isLineEnd hc)]
            rfl
  exact hline

theorem tidy_block : Tidy d ('/' :: '*' :: r) ↔ ∃ r', blockEnd true r = some r' ∧ Tidy d r' := by
  have hblock (start : List Char) (crosses : Bool) : tidyFrom d (.block start crosses) r = true ↔
      ∃ r', blockEnd true r = some r' ∧ Tidy d r' := by
    fun_induction blockEnd true r generalizing crosses with
    | case1 r => simp [tidyFrom, Tidy]
    | case2 => contradiction
    | case3 c r hstar _ ih => rw [tidyFrom.eq_8 _ _ _ _ _ hstar, ih]
    | case4 => simp [tidyFrom]
  exact hblock _ false

theorem tidy_skip (across : Bool) (s : List Char) : Tidy d (skip across s) ↔ Tidy d s := by
  induction s using gap_induction across with
  | nil => rfl
  | blank c r hc ih => rw [skip_blank hc, tidy_blank hc, ih]
  | line r ih => rw [skip_line, tidy_line, ih]
  | block r r' hr ih =>
      rw [skip_block, hr, tidy_block, blockEnd_across hr]
      simpa using ih
  | stop c r hc hline hblock => rw [skip_stop hc hline hblock]

/-- The rest of a string on one line, the closing quote included. -/
inductive Whole (q : Char) : List Char → Prop where
  | close : Whole q [q]
  | plain (c : Char) {s : List Char} (hc : c ≠ '\\') (hq : c ≠ q) (hline : ¬(c = '\n' ∨ c = '\r'))
      (h : Whole q s) : Whole q (c :: s)
  | escaped (c : Char) {s : List Char} (h : Whole q s) : Whole q ('\\' :: c :: s)

theorem Whole.closed (h : Whole q w) : Closed q w := by
  induction h with
  | close => exact .close
  | plain c hc hq _ _ ih => exact .plain c hc hq ih
  | escaped c _ ih => exact .escaped c ih

theorem tidyFrom_plain (hc : c ≠ '\\') (hq' : c ≠ q) (r : List Char) :
    tidyFrom d (.quote q) (c :: r) =
      if c = '\n' ∨ c = '\r' then false else tidyFrom d (.quote q) r := by
  rw [tidyFrom.eq_11 _ _ _ _ fun _ _ h => (hc h).elim, if_neg hq']

section

variable (hq : IsQuote q)

include hq

theorem tidyFrom_close (r : List Char) : tidyFrom d (.quote q) (q :: r) = tidyFrom d .code r := by
  rcases hq with rfl | rfl <;> rfl

theorem tidyFrom_unclosed (h : Unclosed q r) : tidyFrom d (.quote q) r = false := by
  induction h with
  | nil => rfl
  | dangling =>
      rw [tidyFrom, if_neg (ne_backslash hq)]
      · rfl
      · exact nofun
  | plain c hc hq' _ ih => rw [tidyFrom_plain hc hq', ih, ite_self]
  | escaped c _ ih => rw [tidyFrom, ih]

/-- Behind a quote of a text in order stands a string on one line. -/
theorem whole_of_tidyFrom (h : tidyFrom d (.quote q) r = true) :
    ∃ w u, Whole q w ∧ r = w ++ u ∧ Tidy d u := by
  rcases unclosed_or_closed q r with hr | ⟨w, u, hw, rfl⟩
  · cases (tidyFrom_unclosed hq hr).symm.trans h
  · refine ⟨w, u, ?_⟩
    induction hw with
    | close => exact ⟨.close, rfl, (tidyFrom_close hq u).symm.trans h⟩
    | plain c hc hq' _ ih =>
        rw [List.cons_append, tidyFrom_plain hc hq'] at h
        by_cases hline : c = '\n' ∨ c = '\r'
        · rw [if_pos hline] at h
          cases h
        · rw [if_neg hline] at h
          obtain ⟨hwhole, -, hu⟩ := ih h
          exact ⟨.plain c hc hq' hline hwhole, rfl, hu⟩
    | escaped c _ ih =>
        obtain ⟨hwhole, -, hu⟩ := ih h
        exact ⟨.escaped c hwhole, rfl, hu⟩

/-- In any other text the string is broken or never closed, or something is not in order behind it. -/
theorem content_of_tidyFrom {U : List Char → List Char → Prop}
    (hU : ∀ u, ¬Tidy d u → U u u) (h : tidyFrom d (.quote q) r = false) : Content q U r r := by
  rcases unclosed_or_closed q r with hr | ⟨w, u, hw, rfl⟩
  · exact hr.content
  · induction hw with
    | close =>
        rw [List.singleton_append, tidyFrom_close hq] at h
        exact .close (hU u (by rw [Tidy, h]; exact Bool.false_ne_true))
    | plain c hc hq' _ ih =>
        rw [List.cons_append, tidyFrom_plain hc hq'] at h
        by_cases hline : c = '\n' ∨ c = '\r'
        · exact .broken c hline _ _
        · exact .plain c hc hq' (ih ((if_neg hline).symm.trans h))
    | escaped c _ ih => exact .escaped c (ih h)

end

inductive Onward : Nat → Char → List Char → Prop where
  | quote {d : Nat} {q : Char} {w r : List Char} (hq : IsQuote q) (hw : Whole q w) (hr : Tidy d r) :
    Onward d q (w ++ r)
  | opening {d : Nat} {c : Char} {r : List Char} (ho : isOpening c = true) (hr : Tidy (d + 1) r) :
    Onward d c r
  | closing {d : Nat} {c : Char} {r : List Char} (hclose : isClosing c = true) (hr : Tidy d r) :
    Onward (d + 1) c r
  | plain {d : Nat} {c : Char} {r : List Char} (hc : c ≠ '\\') (ho : isOpening c = false)
    (hclose : isClosing c = false) (hq : isQuote c = false) (hr : Tidy d r) : Onward d c r

theorem Tidy.onward (h : Tidy d (c :: r)) (hc : NoComment c r) : Onward d c r := by
  rw [Tidy, tidyFrom_cons hc] at h
  by_cases hslash : c = '\\'
  · rw [if_pos hslash] at h
    cases h
  rw [if_neg hslash] at h
  cases ho : isOpening c with
  | true => exact .opening ho ((if_pos ho).symm.trans h)
  | false =>
      rw [if_neg (by rw [ho]; exact Bool.false_ne_true)] at h
      cases hclose : isClosing c with
      | true =>
          rw [if_pos hclose, Bool.and_eq_true, bne_iff_ne] at h
          obtain ⟨e, rfl⟩ := Nat.exists_eq_succ_of_ne_zero h.1
          exact .closing hclose h.2
      | false =>
          rw [if_neg (by rw [hclose]; exact Bool.false_ne_true)] at h
          cases hq : isQuote c with
          | true =>
              rw [Zone.behind, if_pos hq] at h
              obtain ⟨w, u, hw, rfl, hu⟩ := whole_of_tidyFrom (isQuote_iff.mp hq) h
              exact .quote (isQuote_iff.mp hq) hw hu
          | false =>
              rw [behind_of_not_isQuote hq] at h
              exact .plain hslash ho hclose hq h

/-- Induction along a text in order. -/
theorem tidy_induction {motive : ∀ d s, Tidy d s → Prop} (nil : ∀ h, motive 0 [] h)
    (line : ∀ d r hr h, motive d (r.dropWhile fun c => !isLineEnd c) hr →
      motive d ('/' :: '/' :: r) h)
    (block : ∀ d r r' hr' h, blockEnd true r = some r' → motive d r' hr' →
      motive d ('/' :: '*' :: r) h)
    (quote : ∀ d q w r hr h, IsQuote q → Whole q w → motive d r hr → motive d (q :: (w ++ r)) h)
    (opening : ∀ d c r hr h, isOpening c = true → motive (d + 1) r hr → motive d (c :: r) h)
    (closing : ∀ d c r hr h, isClosing c = true → motive d r hr → motive (d + 1) (c :: r) h)
    (plain : ∀ d c r hr h, NoComment c r → c ≠ '\\' → isOpening c = false → isClosing c = false →
      isQuote c = false → motive d r hr → motive d (c :: r) h)
    (d : Nat) (s : List Char) (hs : Tidy d s) : motive d s hs := by
  induction hn : s.length using Nat.strongRecOn generalizing s d with
  | ind n ih =>
    subst hn
    cases s using front_cases with
    | nil =>
        cases tidy_nil.mp hs
        exact nil hs
    | line r =>
        have hr := tidy_line.mp hs
        have := (List.dropWhile_suffix (l := r) fun c => !isLineEnd c).length_le
        exact line d r hr hs (ih _ (by simp only [List.length_cons]; omega) d _ hr rfl)
    | closed r r' hr =>
        obtain ⟨u, hu, htidy⟩ := tidy_block.mp hs
        cases hr.symm.trans hu
        have := (blockEnd_suffix hr).length_le
        exact block d r r' htidy hs hr
          (ih _ (by simp only [List.length_cons]; omega) d r' htidy rfl)
    | unclosed r hr =>
        obtain ⟨u, hu, -⟩ := tidy_block.mp hs
        cases hr.symm.trans hu
    | code c r hc =>
        have hshorter (e : Nat) (hr : Tidy e r) : motive e r hr :=
          ih _ (Nat.lt_succ_self _) e r hr rfl
        cases hs.onward hc with
        | @quote _ _ w u hq hw hr =>
            refine quote d c w u hr hs hq hw (ih _ ?_ d u hr rfl)
            simp only [List.length_cons, List.length_append]
            omega
        | opening ho hr => exact opening d c r hr hs ho (hshorter _ hr)
        | closing hclose hr => exact closing _ c r hr hs hclose (hshorter _ hr)
        | plain hslash ho hclose hq hr =>
            exact plain d c r hr hs hc hslash ho hclose hq (hshorter _ hr)

theorem NoComment.of_ne {c : Char} (h : c ≠ '/') (r : List Char) : NoComment c r :=
  fun _ hc => (h hc).elim

theorem zonedFrom_line (r : List Char) :
    zonedFrom .code (r.dropWhile fun c => !isLineEnd c) ⊆ zonedFrom .line r := by
  induction r with
  | nil => exact List.Subset.refl _
  | cons c r ih =>
      rw [zonedFrom]
      cases hc : isLineEnd c with
      | false => simpa [hc] using List.subset_cons_of_subset _ ih
      | true =>
          have hblank := isGapBlank_of_isLineEnd hc
          rw [List.dropWhile_cons_of_neg (by simp [hc]), zonedFrom_cons (.of_isGapBlank hblank r),
            behind_of_isGapBlank hblank]
          exact List.subset_cons_self _ _

theorem zonedFrom_block {r' : List Char} (h : blockEnd true r = some r') (start : List Char)
    (crosses : Bool) : zonedFrom .code r' ⊆ zonedFrom (.block start crosses) r := by
  fun_induction blockEnd true r generalizing crosses with
  | case1 r =>
      cases h
      exact List.subset_cons_self _ _
  | case2 => contradiction
  | case3 c r hstar _ ih =>
      rw [zonedFrom.eq_8 _ _ _ _ hstar]
      exact List.subset_cons_of_subset _ (ih h _)
  | case4 => cases h

theorem zonedFrom_skip (across : Bool) (s : List Char) :
    zonedFrom .code (skip across s) ⊆ zonedFrom .code s := by
  induction s using gap_induction across with
  | nil => exact List.Subset.refl _
  | blank c r hc ih =>
      rw [skip_blank hc, zonedFrom_cons (.of_isGapBlank hc r), behind_of_isGapBlank hc]
      exact List.subset_cons_of_subset _ ih
  | line r ih =>
      rw [skip_line]
      exact List.subset_cons_of_subset _ (List.Subset.trans ih (zonedFrom_line r))
  | block r r' hr ih =>
      have hrest := zonedFrom_block (blockEnd_across hr) ('/' :: '*' :: r) false
      rw [skip_block, hr]
      exact List.subset_cons_of_subset _ (List.Subset.trans ih hrest)
  | stop c r hc hline hblock => rw [skip_stop hc hline hblock]; exact List.Subset.refl _

theorem zonedFrom_closed (hq : IsQuote q) (h : Closed q w) (r : List Char) :
    zonedFrom .code r ⊆ zonedFrom (.quote q) (w ++ r) := by
  induction h with
  | close =>
      rw [List.singleton_append, zonedFrom.eq_11 _ _ _ fun _ _ h => (ne_backslash hq h.symm).elim,
        if_pos rfl]
      exact List.subset_cons_self _ _
  | plain c hc hq' _ ih =>
      rw [List.cons_append, zonedFrom.eq_11 _ _ _ fun _ _ h => (hc h).elim, if_neg hq']
      exact List.subset_cons_of_subset _ ih
  | escaped c _ ih =>
      exact List.subset_cons_of_subset _ (List.subset_cons_of_subset _ ih)

theorem InZones.behind {P : Zone → List Char → Prop} (h : InZones P .code (c :: r))
    (hc : NoComment c r) : InZones P (.behind c) r := fun x hx =>
  h x (by rw [zonedFrom_cons hc]; exact List.mem_cons_of_mem _ hx)

theorem InZones.mono {P : Zone → List Char → Prop} {z z' : Zone} {s s' : List Char}
    (h : InZones P z s) (hsub : zonedFrom z' s' ⊆ zonedFrom z s) : InZones P z' s' :=
  fun x hx => h x (hsub hx)

end SmallScript.Lexical
