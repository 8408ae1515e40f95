import SmallScript.Number.Numeral
import SmallScript.Proofs.Lexical.Quoted
import SmallScript.Proofs.Repetition

namespace SmallScript

namespace Scan

variable {p : Char → Bool} {ds s r : List Char}

theorem run_append (h : ∀ c ∈ ds, p c = true) (hr : ∀ c u, r = c :: u → p c = false) :
    run p (ds ++ r) = some (ds, r) := by
  have hrest : r.takeWhile p = [] ∧ r.dropWhile p = r := by
    cases r with
    | nil => exact ⟨rfl, rfl⟩
    | cons c u =>
        have hc : ¬p c = true := by rw [hr c u rfl]; exact Bool.false_ne_true
        exact ⟨List.takeWhile_cons_of_neg hc, List.dropWhile_cons_of_neg hc⟩
  rw [run, List.takeWhile_append_of_pos h, List.dropWhile_append_of_pos h, hrest.1, hrest.2,
    List.append_nil]

theorem run1_append (hne : ds ≠ []) (h : ∀ c ∈ ds, p c = true)
    (hr : ∀ c u, r = c :: u → p c = false) : run1 p (ds ++ r) = some (ds, r) := by
  cases ds with
  | nil => exact (hne rfl).elim
  | cons c cs =>
      obtain ⟨hc, hcs⟩ := List.forall_mem_cons.mp h
      rw [run1_eq, List.cons_append, bind_of_some (if_pos hc), bind_of_some (run_append hcs hr)]
      rfl

theorem all_of_run (h : run p s = some (ds, r)) : ∀ c ∈ ds, p c = true := by
  cases h
  exact List.all_eq_true.mp List.all_takeWhile

theorem all_of_run1 (h : run1 p s = some (ds, r)) : ds ≠ [] ∧ ∀ c ∈ ds, p c = true := by
  cases s with
  | nil => cases h
  | cons c s =>
      rw [run1, Option.ite_none_right_eq_some] at h
      obtain ⟨hc, heq⟩ := h
      cases heq
      exact ⟨List.cons_ne_nil c _,
        List.forall_mem_cons.mpr ⟨hc, List.all_eq_true.mp List.all_takeWhile⟩⟩

theorem eq_cons_of_satisfy {c : Char} (h : satisfy p s = some (c, r)) : s = c :: r ∧ p c = true := by
  cases s with
  | nil => cases h
  | cons d s =>
      rw [satisfy, Option.ite_none_right_eq_some] at h
      obtain ⟨hd, heq⟩ := h
      cases heq
      exact ⟨rfl, hd⟩

theorem eq_of_maybe_none {α : Type} {q : Scan α} (h : maybe q s = some (none, r)) : s = r := by
  rw [maybe_apply] at h
  cases hq : q s with
  | none =>
      rw [hq] at h
      cases h
      rfl
  | some x =>
      rw [hq] at h
      cases h

end Scan

namespace Number

open Lexical Scan Numeral

def IsLiteral (x : Float) : Prop := ∃ l, numeral l = some (x, [])

theorem ne_of_isDigit {c d : Char} (h : isDigit c = true) (hd : isDigit d = false) : c ≠ d := by
  rintro rfl
  exact Bool.false_ne_true (hd.symm.trans h)

theorem maybe_sign {ds : List Char} {sign : Option Char} (hne : ds ≠ [])
    (hall : ∀ c ∈ ds, isDigit c = true) (hsign : ∀ c ∈ sign, c = '+' ∨ c = '-') (u : List Char) :
    maybe (satisfy fun c => c == '+' || c == '-') (sign.toList ++ (ds ++ u)) = some (sign, ds ++ u) := by
  cases sign with
  | none =>
      cases ds with
      | nil => exact (hne rfl).elim
      | cons c cs =>
          have hdigit : isDigit c = true := hall c List.mem_cons_self
          refine maybe_of_none (First.satisfy.cons ?_)
          simp only [Bool.or_eq_false_iff, beq_eq_false_iff_ne]
          exact ⟨ne_of_isDigit hdigit rfl, ne_of_isDigit hdigit rfl⟩
  | some c => exact maybe_of_some (if_pos (by simpa using hsign c rfl))

theorem exponent_literal {s r : List Char} {e : Int} (h : exponent s = some (e, r)) :
    ∃ w, exponent ('e' :: w) = some (e, []) := by
  rw [exponent] at h
  obtain ⟨c, s₁, -, h⟩ := bind_eq_some h
  obtain ⟨sign, s₂, hsign, h⟩ := bind_eq_some h
  obtain ⟨ds, s₃, hds, h⟩ := bind_eq_some h
  cases h
  obtain ⟨hne, hall⟩ := all_of_run1 hds
  have hrun : run1 isDigit ds = some (ds, []) := by
    have h := run1_append (r := []) hne hall (by rintro _ _ ⟨⟩)
    rwa [List.append_nil] at h
  have hsigns : ∀ c ∈ sign, c = '+' ∨ c = '-' := by
    rintro d ⟨⟩
    simpa using (eq_cons_of_satisfy (eq_of_maybe hsign)).2
  have hmaybe := maybe_sign hne hall hsigns []
  rw [List.append_nil] at hmaybe
  refine ⟨sign.toList ++ ds, ?_⟩
  rw [exponent, bind_of_some (a := 'e') rfl, bind_of_some hmaybe, bind_of_some hrun]
  rfl

theorem decimal_literal {whole fraction : List Char} (hne : whole ++ fraction ≠ [])
    (hwhole : ∀ c ∈ whole, isDigit c = true) (hfraction : ∀ c ∈ fraction, isDigit c = true)
    {w : List Char} {e : Option Int} (hw : maybe exponent w = some (e, []))
    (hfront : ∀ c u, w = c :: u → c = 'e') :
    decimal (whole ++ '.' :: (fraction ++ w)) = some (valueOf whole fraction (e.getD 0), []) := by
  have hstop : ∀ c u, w = c :: u → isDigit c = false := by
    rintro c u hc
    rw [hfront c u hc]
    rfl
  have hmantissa : (wholeMantissa <|> pointMantissa) (whole ++ '.' :: (fraction ++ w)) =
      some ((whole, fraction), w) := by
    cases whole with
    | nil =>
        have hdigits : fraction ≠ [] := hne
        refine (orElse_of_none rfl).trans ?_
        rw [List.nil_append, pointMantissa, bind_of_some (char_self _ _),
          bind_of_some (run1_append hdigits hfraction hstop)]
        rfl
    | cons c cs =>
        have hpoint : maybe (do char '.'; run isDigit) ('.' :: (fraction ++ w)) =
            some (some fraction, w) := by
          refine maybe_of_some ?_
          rw [bind_of_some (char_self _ _), run_append hfraction hstop]
        have hdot : ∀ d u, '.' :: (fraction ++ w) = d :: u → isDigit d = false := by
          rintro _ _ ⟨⟩
          rfl
        refine orElse_of_some ?_
        rw [wholeMantissa, bind_of_some (run1_append (List.cons_ne_nil c cs) hwhole hdot),
          bind_of_some hpoint]
        rfl
  rw [decimal, bind_of_some hmantissa]
  exact bind_of_some hw

theorem isLiteral_of_decimal {s r : List Char} {x : Float} (h : decimal s = some (x, r)) :
    IsLiteral x := by
  rw [decimal] at h
  obtain ⟨⟨whole, fraction⟩, s₁, hmantissa, h⟩ := bind_eq_some h
  obtain ⟨e, s₂, he, h⟩ := bind_eq_some h
  cases h
  have hdigits : whole ++ fraction ≠ [] ∧ (∀ c ∈ whole, isDigit c = true) ∧
      ∀ c ∈ fraction, isDigit c = true := by
    rw [orElse_apply, Option.or_eq_some_iff] at hmantissa
    rcases hmantissa with h | ⟨-, h⟩
    · rw [wholeMantissa] at h
      obtain ⟨ds, u, hds, h⟩ := bind_eq_some h
      obtain ⟨f, v, hf, h⟩ := bind_eq_some h
      cases h
      obtain ⟨hne, hall⟩ := all_of_run1 hds
      refine ⟨fun h => hne (List.append_eq_nil_iff.mp h).1, hall, ?_⟩
      cases f with
      | none => exact nofun
      | some f =>
          obtain ⟨_, u', -, hrun⟩ := bind_eq_some (eq_of_maybe hf)
          exact all_of_run hrun
    · rw [pointMantissa] at h
      obtain ⟨_, u, -, h⟩ := bind_eq_some h
      obtain ⟨ds, v, hds, h⟩ := bind_eq_some h
      cases h
      obtain ⟨hne, hall⟩ := all_of_run1 hds
      exact ⟨hne, nofun, hall⟩
  have hexponent : ∃ w, maybe exponent w = some (e, []) ∧ ∀ c u, w = c :: u → c = 'e' := by
    cases e with
    | none => exact ⟨[], rfl, nofun⟩
    | some e =>
        obtain ⟨w, hw⟩ := exponent_literal (eq_of_maybe he)
        exact ⟨'e' :: w, maybe_of_some hw, by rintro _ _ ⟨⟩; rfl⟩
  obtain ⟨w, hw, hfront⟩ := hexponent
  have hdecimal := decimal_literal hdigits.1 hdigits.2.1 hdigits.2.2 hw hfront
  refine ⟨whole ++ '.' :: (fraction ++ w), ?_⟩
  have hhexadecimal : hexadecimal (whole ++ '.' :: (fraction ++ w)) = none := by
    -- a digit or the point stands where the letter of a hexadecimal numeral would
    have hpoint (c : Char) (hc : isDigit c = true ∨ c = '.') (u : List Char) :
        satisfy (fun c => c == 'x' || c == 'X') (c :: u) = none := by
      refine First.satisfy.cons ?_
      simp only [Bool.or_eq_false_iff, beq_eq_false_iff_ne]
      rcases hc with hc | rfl
      · exact ⟨ne_of_isDigit hc rfl, ne_of_isDigit hc rfl⟩
      · decide
    cases whole with
    | nil => rfl
    | cons c cs =>
        rw [hexadecimal, List.cons_append]
        by_cases hc : c = '0'
        · rw [hc, bind_of_some (char_self _ _)]
          refine bind_of_none ?_
          cases cs with
          | nil => exact hpoint '.' (.inr rfl) _
          | cons d ds =>
              exact hpoint d (.inl (hdigits.2.1 d (List.mem_cons_of_mem _ List.mem_cons_self))) _
        · exact bind_of_none (if_neg hc)
  rw [numeral, bind_of_some ((orElse_of_none hhexadecimal).trans hdecimal)]
  rfl

theorem isLiteral_of_numeral {s r : List Char} {x : Float} (h : numeral s = some (x, r)) :
    IsLiteral x := by
  rw [numeral] at h
  obtain ⟨y, s₁, hvalue, h⟩ := bind_eq_some h
  obtain ⟨_, s₂, -, h⟩ := bind_eq_some h
  cases h
  rw [orElse_apply, Option.or_eq_some_iff] at hvalue
  rcases hvalue with h | ⟨-, h⟩
  · rw [hexadecimal] at h
    obtain ⟨_, u, -, h⟩ := bind_eq_some h
    obtain ⟨_, v, -, h⟩ := bind_eq_some h
    obtain ⟨ds, w, hds, h⟩ := bind_eq_some h
    obtain ⟨hne, hall⟩ := all_of_run1 hds
    have hrun : run1 isHexDigit ds = some (ds, []) := by
      have h := run1_append (r := []) hne hall (by rintro _ _ ⟨⟩)
      rwa [List.append_nil] at h
    refine ⟨'0' :: 'x' :: ds, ?_⟩
    cases hx : hexValue? ds with
    | none =>
        rw [hx] at h
        cases h
    | some y =>
        rw [hx] at h
        cases h
        have hletter : satisfy (fun c => c == 'x' || c == 'X') ('x' :: ds) = some ('x', ds) := rfl
        have hhexadecimal : hexadecimal ('0' :: 'x' :: ds) = some (x, []) := by
          rw [hexadecimal, bind_of_some (char_self _ _),
            bind_of_some hletter, bind_of_some hrun, hx]
          rfl
        rw [numeral, bind_of_some (orElse_of_some hhexadecimal)]
        rfl
  · exact isLiteral_of_decimal h

end Number

namespace Lexical

open Scan

def escaped (c : Char) : List Char :=
  if c = '\\' then ['\\', '\\']
  else if c = '"' then ['\\', '"']
  else if c = '\n' then ['\\', 'n']
  else if c = '\r' then ['\\', 'r']
  else [c]

def stringLiteral (s : String) : List Char := '"' :: (s.toList.flatMap escaped ++ ['"'])

theorem escaped_of_plain {c : Char} (h : isPlain '"' c = true) : escaped c = [c] := by
  simp only [isPlain, Bool.and_eq_true, bne_iff_ne, ne_eq] at h
  obtain ⟨⟨⟨hbackslash, hquote⟩, hfeed⟩, hreturn⟩ := h
  rw [escaped, if_neg hbackslash, if_neg hquote, if_neg hfeed, if_neg hreturn]

theorem quotedPart_escaped {c : Char} (h : isPlain '"' c = false) (r : List Char) :
    (∃ u, escaped c = '\\' :: u) ∧ quotedPart '"' (escaped c ++ r) = some ([c], r) := by
  simp only [isPlain, Bool.and_eq_false_iff, bne_eq_false_iff_eq] at h
  rcases h with ((rfl | rfl) | rfl) | rfl <;> exact ⟨⟨_, rfl⟩, rfl⟩

theorem takes_of_content {α : Type} {q : Char} {p : Scan α}
    (h : ∀ n, Follows 1 n (Content q Eq) (Content q Eq) p p) : Takes p := by
  intro s a r hs
  rcases h (s.length + 1) s s (Nat.lt_succ_self _) (.refl q (fun _ => rfl) s) with
    ⟨hfail, -⟩ | ⟨_, _, _, hr, -, -, hleft, -⟩
  · cases hfail.symm.trans hs
  · cases hr.symm.trans hs
    exact hleft

theorem takes_quotedPart {q : Char} (hq : IsQuote q) : Takes (quotedPart q) :=
  takes_of_content fun n => Content.quotedPart n hq

theorem quotedParts_literal (cs r : List Char) :
    ∃ parts, many (quotedPart '"') (cs.flatMap escaped ++ '"' :: r) = some (parts, '"' :: r) ∧
      parts.flatten = cs := by
  have htakes : Takes (quotedPart '"') := takes_quotedPart (.inl rfl)
  induction hn : cs.length using Nat.strongRecOn generalizing cs with
  | ind n ih =>
    subst hn
    cases cs with
    | nil => exact ⟨[], many_of_none rfl, rfl⟩
    | cons c cs =>
        cases hc : isPlain '"' c with
        | false =>
            obtain ⟨parts, hparts, hflatten⟩ := ih _ (Nat.lt_succ_self _) cs rfl
            refine ⟨[c] :: parts, ?_, by rw [List.flatten_cons, hflatten]; rfl⟩
            rw [List.flatMap_cons, List.append_assoc,
              many_of_some htakes (quotedPart_escaped hc _).2, hparts, Option.map_some]
        | true =>
            -- plain characters are read in runs
            have hsplit := List.takeWhile_append_dropWhile (p := isPlain '"') (l := c :: cs)
            have hrun : (c :: cs).takeWhile (isPlain '"') ≠ [] := by
              rw [List.takeWhile_cons_of_pos hc]
              exact nofun
            have hplain : ∀ d ∈ (c :: cs).takeWhile (isPlain '"'), isPlain '"' d = true :=
              List.all_eq_true.mp List.all_takeWhile
            have hfront := List.head?_dropWhile_not (isPlain '"') (c :: cs)
            generalize (c :: cs).takeWhile (isPlain '"') = ps at hsplit hrun hplain
            generalize (c :: cs).dropWhile (isPlain '"') = ds at hsplit hfront
            rw [← hsplit]
            have hlength : ds.length < (c :: cs).length := by
              rw [← hsplit, List.length_append]
              have := List.length_pos_iff.mpr hrun
              omega
            obtain ⟨parts, hparts, hflatten⟩ := ih _ hlength ds rfl
            have hescaped : ps.flatMap escaped = ps := by
              clear hsplit hrun hlength
              induction ps with
              | nil => rfl
              | cons d ps ihp =>
                  obtain ⟨hd, hps⟩ := List.forall_mem_cons.mp hplain
                  rw [List.flatMap_cons, escaped_of_plain hd, ihp hps]
                  rfl
            have hstop : ∀ d u, ds.flatMap escaped ++ '"' :: r = d :: u → isPlain '"' d = false := by
              cases ds with
              | nil =>
                  rintro _ _ ⟨⟩
                  rfl
              | cons e ds =>
                  obtain ⟨w, hw⟩ := (quotedPart_escaped (by simpa using hfront) []).1
                  rw [List.flatMap_cons, hw]
                  rintro _ _ ⟨⟩
                  rfl
            have hpart : quotedPart '"' (ps ++ (ds.flatMap escaped ++ '"' :: r)) =
                some (ps, ds.flatMap escaped ++ '"' :: r) :=
              orElse_of_some (run1_append hrun hplain hstop)
            refine ⟨ps :: parts, ?_, by rw [List.flatten_cons, hflatten]⟩
            rw [List.flatMap_append, hescaped, List.append_assoc, many_of_some htakes hpart, hparts,
              Option.map_some]

theorem quoted_literal (v : String) (r : List Char) :
    quoted (stringLiteral v ++ r) = some (v, r) := by
  obtain ⟨parts, hparts, hflatten⟩ := quotedParts_literal v.toList r
  refine orElse_of_some ?_
  rw [stringLiteral, List.cons_append, List.append_assoc, List.cons_append, List.nil_append, quotedBy,
    bind_of_some (char_self _ _), bind_of_some hparts, bind_of_some (char_self _ _), hflatten,
    String.ofList_toList]
  rfl

end Lexical

end SmallScript
