import SmallScript.Proofs.Lexical.Gap
import SmallScript.Proofs.Lexical.Quoted

namespace SmallScript.Lexical

/-- Where a scan for comments stands: in code, in a comment that ends with its line, in a comment
that starts at `start` and may have crossed a line end, or in a string between quotes `q`. -/
inductive Zone where
  | code
  | line
  | block (start : List Char) (crosses : Bool)
  | quote (q : Char)

def isQuote (c : Char) : Bool := c == '"' || c == '\''

def Zone.behind (c : Char) : Zone := if isQuote c then .quote c else .code

/-- A comment that is never closed is none; it stays as it is, with all that follows. -/
def blankFrom : Zone → List Char → List Char
  | .code, '/' :: '/' :: r => ' ' :: blankFrom .line r
  | .code, '/' :: '*' :: r => blankFrom (.block ('/' :: '*' :: r) false) r
  | .code, c :: r => c :: blankFrom (.behind c) r
  | .code, [] => []
  | .line, c :: r => if isLineEnd c then c :: blankFrom .code r else blankFrom .line r
  | .line, [] => []
  | .block _ crosses, '*' :: '/' :: r => (if crosses then '\n' else ' ') :: blankFrom .code r
  | .block start crosses, c :: r => blankFrom (.block start (crosses || isLineEnd c)) r
  | .block start _, [] => start
  | .quote q, '\\' :: c :: r => '\\' :: c :: blankFrom (.quote q) r
  | .quote q, c :: r => c :: blankFrom (if c = q then .code else .quote q) r
  | .quote _, [] => []

def blankComments (s : List Char) : List Char := blankFrom .code s

/-- The rests of a text from each character that stands in no comment and no string. -/
def codeFrom : Zone → List Char → List (List Char)
  | .code, '/' :: '/' :: r => codeFrom .line r
  | .code, '/' :: '*' :: r => codeFrom (.block ('/' :: '*' :: r) false) r
  | .code, c :: r => (c :: r) :: codeFrom (.behind c) r
  | .code, [] => []
  | .line, c :: r => if isLineEnd c then (c :: r) :: codeFrom .code r else codeFrom .line r
  | .line, [] => []
  | .block _ _, '*' :: '/' :: r => codeFrom .code r
  | .block start crosses, c :: r => codeFrom (.block start (crosses || isLineEnd c)) r
  | .block _ _, [] => []
  | .quote q, '\\' :: _ :: r => codeFrom (.quote q) r
  | .quote q, c :: r => codeFrom (if c = q then .code else .quote q) r
  | .quote _, [] => []

def codeTails (s : List Char) : List (List Char) := codeFrom .code s

theorem isQuote_iff {c : Char} : isQuote c = true ↔ IsQuote c := by
  rw [isQuote, Bool.or_eq_true, beq_iff_eq, beq_iff_eq, IsQuote]

theorem isQuote_eq_false {p : Char → Bool} (hp : p '"' = false ∧ p '\'' = false) {c : Char}
    (h : p c = true) : isQuote c = false := by
  rw [Bool.eq_false_iff]
  intro hq
  rcases isQuote_iff.mp hq with rfl | rfl
  · exact Bool.false_ne_true (hp.1.symm.trans h)
  · exact Bool.false_ne_true (hp.2.symm.trans h)

theorem behind_of_not_isQuote {c : Char} (h : isQuote c = false) : Zone.behind c = .code := by
  rw [Zone.behind, h, if_neg Bool.false_ne_true]

/-- No comment starts with `c` in front of `r`. -/
def NoComment (c : Char) (r : List Char) : Prop :=
  ∀ r', c = '/' → r ≠ '/' :: r' ∧ r ≠ '*' :: r'

section

variable {c : Char} {r : List Char}

theorem blankComments_cons (h : NoComment c r) :
    blankComments (c :: r) = c :: blankFrom (.behind c) r :=
  blankFrom.eq_3 c r (fun r' hc => (h r' hc).1) fun r' hc => (h r' hc).2

theorem codeTails_cons (h : NoComment c r) :
    codeTails (c :: r) = (c :: r) :: codeFrom (.behind c) r :=
  codeFrom.eq_3 c r (fun r' hc => (h r' hc).1) fun r' hc => (h r' hc).2

theorem NoComment.of_isGapBlank {across : Bool} (h : isGapBlank across c = true) (r : List Char) :
    NoComment c r :=
  fun _ hc => (ne_slash_of_isGapBlank h hc).elim

theorem isQuote_of_isGapBlank {across : Bool} (h : isGapBlank across c = true) :
    isQuote c = false :=
  isQuote_eq_false (by cases across <;> exact ⟨rfl, rfl⟩) h

theorem behind_of_isGapBlank {across : Bool} (h : isGapBlank across c = true) :
    Zone.behind c = .code :=
  behind_of_not_isQuote (isQuote_of_isGapBlank h)

theorem IsQuote.noComment (h : IsQuote c) (r : List Char) : NoComment c r := by
  rintro r' rfl
  rcases h with h | h <;> cases h

theorem IsQuote.behind_eq (h : IsQuote c) : Zone.behind c = .quote c := if_pos (isQuote_iff.mpr h)

theorem IsQuote.isLineEnd_eq_false (h : IsQuote c) : isLineEnd c = false := by
  rcases h with rfl | rfl <;> rfl

theorem blankFrom_line (r : List Char) :
    blankFrom .line r = blankComments (r.dropWhile fun c => !isLineEnd c) := by
  induction r with
  | nil => rfl
  | cons c r ih =>
      rw [blankFrom]
      cases hc : isLineEnd c with
      | false => simpa [hc] using ih
      | true =>
          rw [if_pos rfl, List.dropWhile_cons_of_neg (by simp [hc]),
            blankComments_cons (.of_isGapBlank (isGapBlank_of_isLineEnd hc) r),
            behind_of_isGapBlank (isGapBlank_of_isLineEnd hc)]

theorem codeFrom_line (r : List Char) :
    codeFrom .line r = codeTails (r.dropWhile fun c => !isLineEnd c) := by
  induction r with
  | nil => rfl
  | cons c r ih =>
      rw [codeFrom]
      cases hc : isLineEnd c with
      | false => simpa [hc] using ih
      | true =>
          rw [if_pos rfl, List.dropWhile_cons_of_neg (by simp [hc]),
            codeTails_cons (.of_isGapBlank (isGapBlank_of_isLineEnd hc) r),
            behind_of_isGapBlank (isGapBlank_of_isLineEnd hc)]

theorem blankFrom_block (start : List Char) (crosses : Bool) (r : List Char) :
    blankFrom (.block start crosses) r = ((blockEnd true r).map fun r' =>
      (if crosses || (blockEnd false r).isNone then '\n' else ' ') :: blankComments r').getD start := by
  fun_induction blockEnd true r generalizing crosses with
  | case1 r => simp [blankFrom, blockEnd, blankComments]
  | case2 => contradiction
  | case3 c r hstar _ ih =>
      rw [blankFrom.eq_8 _ _ _ _ hstar, ih, blockEnd.eq_2 _ _ _ hstar]
      cases isLineEnd c <;> simp
  | case4 => rfl

theorem codeFrom_block (start : List Char) (crosses : Bool) (r : List Char) :
    codeFrom (.block start crosses) r = ((blockEnd true r).map codeTails).getD [] := by
  fun_induction blockEnd true r generalizing crosses with
  | case1 r => rfl
  | case2 => contradiction
  | case3 c r hstar _ ih => rw [codeFrom.eq_8 _ _ _ _ hstar, ih]
  | case4 => rfl

end

theorem blockComment_block (r : List Char) :
    blockComment ('/' :: '*' :: r) = (blockEnd true r).map fun r' => ((), r') := by
  rw [blockComment, afterBlock_eq]

theorem blockComment_cons {c : Char} {r : List Char} (h : NoComment c r) :
    blockComment (c :: r) = none :=
  blockComment.eq_2 _ fun r' heq => by
    cases heq
    exact (h r' rfl).2 rfl

/-- A text starts with a comment, with a comment that is never closed, or with neither. -/
theorem front_cases {motive : List Char → Prop} (nil : motive [])
    (line : ∀ r, motive ('/' :: '/' :: r))
    (closed : ∀ r r', blockEnd true r = some r' → motive ('/' :: '*' :: r))
    (unclosed : ∀ r, blockEnd true r = none → motive ('/' :: '*' :: r))
    (code : ∀ c r, NoComment c r → motive (c :: r)) (s : List Char) : motive s := by
  cases s with
  | nil => exact nil
  | cons c r =>
      by_cases hline : ∃ r', c = '/' ∧ r = '/' :: r'
      · obtain ⟨r', rfl, rfl⟩ := hline
        exact line r'
      by_cases hblock : ∃ r', c = '/' ∧ r = '*' :: r'
      · obtain ⟨r', rfl, rfl⟩ := hblock
        cases hend : blockEnd true r' with
        | none => exact unclosed r' hend
        | some r'' => exact closed r' r'' hend
      · exact code c r fun r' hc => ⟨fun h => hline ⟨r', hc, h⟩, fun h => hblock ⟨r', hc, h⟩⟩

theorem eq_of_blockComment {s r : List Char} {u : Unit} (h : blockComment s = some (u, r)) :
    ∃ t, s = '/' :: '*' :: t ∧ blockEnd true t = some r := by
  cases s using front_cases with
  | nil => cases h
  | line t => cases h
  | closed t t' ht =>
      rw [blockComment_block, ht] at h
      cases h
      exact ⟨t, rfl, ht⟩
  | unclosed t ht =>
      rw [blockComment_block, ht] at h
      cases h
  | code c t hc =>
      rw [blockComment_cons hc] at h
      cases h

theorem suffix_of_mem_codeFrom {z : Zone} {s u : List Char} (h : u ∈ codeFrom z s) : u <:+ s := by
  fun_induction codeFrom z s with
  | case1 r ih | case2 r ih | case8 _ _ r ih | case11 _ _ r ih => exact (ih h).trans ⟨[_, _], rfl⟩
  | case3 c r _ _ ih | case5 c r _ ih =>
      rcases List.mem_cons.mp h with rfl | h
      · exact List.suffix_rfl
      · exact (ih h).trans (List.suffix_cons c r)
  | case6 c r _ ih | case9 _ _ c r _ ih | case12 _ c r _ ih =>
      exact (ih h).trans (List.suffix_cons c r)
  | case4 | case7 | case10 | case13 => cases h

/-- A part of a source, up to its end, and the same without comments. -/
structure Blanked (source s t : List Char) : Prop where
  blank : t = blankComments s
  suffix : s <:+ source
  code : codeTails s ⊆ codeTails source

section

variable {q : Char} {w : List Char} (hq : IsQuote q)

include hq

theorem ne_backslash : '\\' ≠ q := by
  rcases hq with rfl | rfl <;> decide

theorem blankFrom_unclosed (h : Unclosed q w) : blankFrom (.quote q) w = w := by
  have hne := ne_backslash hq
  induction h with
  | nil => rfl
  | dangling =>
      rw [blankFrom, if_neg hne]
      · rfl
      · exact nofun
  | plain c hc hq' _ ih =>
      rw [blankFrom.eq_11 _ _ _ fun _ _ h => (hc h).elim, if_neg hq', ih]
  | escaped c _ ih => rw [blankFrom, ih]

theorem codeFrom_unclosed (h : Unclosed q w) : codeFrom (.quote q) w = [] := by
  have hne := ne_backslash hq
  induction h with
  | nil => rfl
  | dangling =>
      rw [codeFrom, if_neg hne]
      · rfl
      · exact nofun
  | plain c hc hq' _ ih =>
      rw [codeFrom.eq_11 _ _ _ fun _ _ h => (hc h).elim, if_neg hq', ih]
  | escaped c _ ih => rw [codeFrom, ih]

theorem blankFrom_closed (h : Closed q w) (r : List Char) :
    blankFrom (.quote q) (w ++ r) = w ++ blankComments r := by
  have hne := ne_backslash hq
  induction h with
  | close =>
      rw [List.singleton_append, blankFrom.eq_11 _ _ _ fun _ _ h => (hne h.symm).elim, if_pos rfl]
      rfl
  | plain c hc hq' _ ih =>
      rw [List.cons_append, blankFrom.eq_11 _ _ _ fun _ _ h => (hc h).elim, if_neg hq', ih]
      rfl
  | escaped c _ ih =>
      rw [List.cons_append, List.cons_append, blankFrom, ih]
      rfl

theorem codeFrom_closed (h : Closed q w) (r : List Char) :
    codeFrom (.quote q) (w ++ r) = codeTails r := by
  have hne := ne_backslash hq
  induction h with
  | close =>
      rw [List.singleton_append, codeFrom.eq_11 _ _ _ fun _ _ h => (hne h.symm).elim, if_pos rfl]
      rfl
  | plain c hc hq' _ ih =>
      rw [List.cons_append, codeFrom.eq_11 _ _ _ fun _ _ h => (hc h).elim, if_neg hq', ih]
  | escaped c _ ih => rw [List.cons_append, List.cons_append, codeFrom, ih]

end

theorem blankComments_line (r : List Char) : blankComments ('/' :: '/' :: r) =
    ' ' :: blankComments (r.dropWhile fun c => !isLineEnd c) := by
  rw [← blankFrom_line]
  rfl

theorem blankComments_block (r : List Char) : blankComments ('/' :: '*' :: r) =
    ((blockEnd true r).map fun r' =>
      (if (blockEnd false r).isNone then '\n' else ' ') :: blankComments r').getD
        ('/' :: '*' :: r) := by
  rw [← Bool.false_or (blockEnd false r).isNone]
  exact blankFrom_block _ false r

theorem NoComment.blank {r : List Char} (h : NoComment '/' r) : NoComment '/' (blankComments r) := by
  cases r with
  | nil => exact fun _ _ => ⟨nofun, nofun⟩
  | cons c r =>
      have hc : NoComment c r := fun r' hslash => ((h r rfl).1 (by rw [hslash])).elim
      rw [blankComments_cons hc]
      refine fun r' _ => ⟨?_, ?_⟩ <;> rintro ⟨⟩
      · exact (h r rfl).1 rfl
      · exact (h r rfl).2 rfl

/-- How far a gap goes does not depend on comments. -/
theorem skip_blankComments (across : Bool) (s : List Char) :
    skip across (blankComments s) = blankComments (skip across s) := by
  induction s using gap_induction across with
  | nil => rfl
  | blank c r hc ih =>
      rw [blankComments_cons (.of_isGapBlank hc r), behind_of_isGapBlank hc, skip_blank hc,
        skip_blank hc]
      exact ih
  | line r ih =>
      rw [blankComments_line, skip_line, ← ih, skip_blank (by cases across <;> rfl)]
  | block r r' hr ih =>
      rw [skip_block, hr, Option.map_some, Option.getD_some, ← ih, blankComments_block]
      cases across with
      | true => rw [hr, Option.map_some, Option.getD_some, skip_blank (by split <;> rfl)]
      | false =>
          rw [blockEnd_across hr, hr, Option.map_some, Option.getD_some]
          exact skip_blank rfl _
  | stop c r hc hline hblock =>
      rw [skip_stop hc hline hblock]
      by_cases h : ∃ r', c = '/' ∧ r = '*' :: r'
      · obtain ⟨r', rfl, rfl⟩ := h
        rw [blankComments_block]
        cases hend : blockEnd true r' with
        | none => exact skip_stop hc hline hblock
        | some r'' =>
            cases across with
            | true => cases (hblock r' rfl rfl).symm.trans hend
            | false =>
                rw [hblock r' rfl rfl]
                exact skip_stop rfl nofun nofun
      · have hnone : NoComment c r := fun r' hslash => ⟨hline r' hslash, fun hr => h ⟨r', hslash, hr⟩⟩
        rw [blankComments_cons hnone]
        refine skip_stop hc (fun r' hslash hr => ?_) fun r' hslash hr => ?_ <;> subst hslash
        · exact (hnone.blank r' rfl).1 hr
        · exact ((hnone.blank r' rfl).2 hr).elim

theorem codeTails_skip (across : Bool) (s : List Char) :
    codeTails (skip across s) ⊆ codeTails s := by
  induction s using gap_induction across with
  | nil => exact List.Subset.refl _
  | blank c r hc ih =>
      rw [skip_blank hc, codeTails_cons (.of_isGapBlank hc r), behind_of_isGapBlank hc]
      exact List.subset_cons_of_subset _ ih
  | line r ih =>
      rw [skip_line]
      exact List.Subset.trans ih (codeFrom_line r ▸ List.Subset.refl _)
  | block r r' hr ih =>
      rw [skip_block, hr, Option.map_some, Option.getD_some, codeTails.eq_1 ('/' :: _), codeFrom,
        codeFrom_block, blockEnd_across hr]
      exact ih
  | stop c r hc hline hblock => rw [skip_stop hc hline hblock]; exact List.Subset.refl _

namespace Blanked

variable {source s t r : List Char} {c : Char}

theorem skip (h : Blanked source s t) (across : Bool) :
    Blanked source (skip across s) (Lexical.skip across t) where
  blank := by rw [h.blank, skip_blankComments]
  suffix := (skip_suffix s).trans h.suffix
  code := List.Subset.trans (codeTails_skip across s) h.code

theorem behind (h : Blanked source (c :: r) t) (hc : NoComment c r) (hq : isQuote c = false) :
    ∃ r', t = c :: r' ∧ Blanked source r r' := by
  have hcode := behind_of_not_isQuote hq
  refine ⟨blankComments r, ?_, rfl, (List.suffix_cons c r).trans h.suffix, fun u hu => h.code ?_⟩
  · rw [h.blank, blankComments_cons hc, hcode, blankComments]
  · rw [codeTails_cons hc, hcode]
    exact List.mem_cons_of_mem _ hu

theorem content {q : Char} (hq : IsQuote q) (hr : r <:+ source)
    (h : codeFrom (.quote q) r ⊆ codeTails source) :
    Content q (Blanked source) r (blankFrom (.quote q) r) := by
  rcases unclosed_or_closed q r with hw | ⟨w, u, hw, rfl⟩
  · rw [blankFrom_unclosed hq hw]
    exact hw.content
  · rw [codeFrom_closed hq hw] at h
    rw [blankFrom_closed hq hw]
    exact hw.content ⟨rfl, (List.suffix_append w u).trans hr, h⟩

theorem contentBehind (h : Blanked source (c :: r) t) (hq : IsQuote c) :
    ∃ r', t = c :: r' ∧ Content c (Blanked source) r r' := by
  refine ⟨blankFrom (.quote c) r, ?_,
    content hq ((List.suffix_cons c r).trans h.suffix) fun u hu => h.code ?_⟩
  · rw [h.blank, blankComments_cons (hq.noComment r), hq.behind_eq]
  · rw [codeTails_cons (hq.noComment r), hq.behind_eq]
    exact List.mem_cons_of_mem _ hu

end Blanked

end SmallScript.Lexical
