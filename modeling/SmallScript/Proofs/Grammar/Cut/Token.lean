import SmallScript.Proofs.Grammar.Bracket
import SmallScript.Proofs.Grammar.Cut.Contract
import SmallScript.Proofs.Grammar.Joint

namespace SmallScript.Grammar

open Lexical Scan

/-- A text that joins `k`, and the text with `k` behind it. -/
structure CutAt (k s t : List Char) : Prop where
  append : t = s ++ k
  joins : Joins k 0 s

/-- The same, where no token goes over the joint. -/
structure Within (k s t : List Char) : Prop extends CutAt k s t where
  front : s ≠ [] ∨ k.head? = some '\x7d'

def Inner (k s t : List Char) : Prop := ∃ x, Reaching k (some x) 0 s t ∧ Joins k 0 x

structure Rested (T : List Char → List Char → Prop) (s t : List Char) : Prop where
  tied : T s t
  stop : skipGap s = s

variable {α β : Type} {k s t r : List Char} {c : Char} {j n : Nat} {p : Scan α}

namespace CutAt

theorem nil (h : CutAt k [] t) : t = k := h.append

theorem skip (h : CutAt k s t) (hk : Halt k) (across : Bool) :
    CutAt k (Lexical.skip across s) (Lexical.skip across t) := by
  obtain ⟨happend, hjoins⟩ := h.joins.skip hk.skip_eq across
  exact ⟨by rw [h.append, happend], hjoins⟩

theorem behind (h : CutAt k (c :: r) t) (hc : NoComment c r) (ho : isOpening c = false)
    (hclose : isClosing c = false) (hq : isQuote c = false) :
    t = c :: (r ++ k) ∧ CutAt k r (r ++ k) ∧ (r = [] → Parted k c) := by
  obtain ⟨-, hend, hr⟩ := h.joins.behind_plain hc ho hclose hq
  exact ⟨h.append, ⟨rfl, hr⟩, hend⟩

end CutAt

theorem cutAt_nil (k : List Char) : CutAt k [] k := ⟨rfl, .nil⟩

namespace Within

theorem tail (h : CutAt k (c :: r) t) (hc : NoComment c r) (ho : isOpening c = false)
    (hclose : isClosing c = false) (hq : isQuote c = false)
    (hparts : c ≠ ';' ∧ isGapBlank true c = false) : Within k r (r ++ k) := by
  obtain ⟨-, hr, hend⟩ := h.behind hc ho hclose hq
  refine ⟨hr, ?_⟩
  by_cases hnil : r = []
  · rcases hend hnil with hsemicolon | hblank | hbrace
    · exact (hparts.1 hsemicolon).elim
    · cases hparts.2.symm.trans hblank
    · exact .inr hbrace
  · exact .inl hnil

theorem symbols : Symbols (Within k) where
  agree {s t} h p hp := by
    cases s with
    | nil =>
        refine .inr ⟨nofun, fun c r hr => ?_⟩
        have hbrace : k.head? = some '\x7d' := h.front.resolve_left fun h => h rfl
        rw [← h.nil, hr, List.head?_cons, Option.some.injEq] at hbrace
        rw [hbrace, ← Bool.not_eq_true]
        intro hc
        cases hp _ hc
    | cons c r =>
        cases hc : p c with
        | false =>
            refine .inr ⟨by rintro _ _ ⟨⟩; exact hc, fun c' r' hr => ?_⟩
            cases h.append.symm.trans hr
            exact hc
        | true =>
            have hsymbol := hp c hc
            simp only [isSymbolic, isOrdinary, Bool.and_eq_true, Bool.not_eq_true', bne_iff_ne,
              Bool.or_eq_false_iff, beq_eq_false_iff_ne] at hsymbol
            obtain ⟨⟨⟨⟨⟨⟨⟨⟨ho, hclose⟩, hq⟩, hslash⟩, -⟩, -⟩, -⟩, hsemicolon⟩, hblank⟩ := hsymbol
            exact .inl ⟨c, r, r ++ k, hc, rfl, h.append,
              tail h.toCutAt (fun _ h => (hslash h).elim) ho hclose hq ⟨hsemicolon, hblank⟩⟩

theorem charSlash : Follows 1 n (Rested (Within k)) (Within k) (char '/') (char '/') := by
  rintro s t - ⟨h, hstop⟩
  cases s with
  | nil =>
      have hbrace : k.head? = some '\x7d' := h.front.resolve_left fun h => h rfl
      refine .inl ⟨rfl, (First.char '/').fails fun c r hr => ?_⟩
      rw [← h.nil, hr, List.head?_cons, Option.some.injEq] at hbrace
      rw [hbrace]
      rfl
  | cons c r =>
      rw [h.append, List.cons_append]
      by_cases hc : c = '/'
      · subst hc
        have hcode : NoComment '/' r := by
          refine fun u _ => ⟨?_, ?_⟩ <;> rintro rfl
          · exact skip_line_ne u hstop
          · obtain ⟨r', hr', -⟩ := h.joins.behind_block
            exact skip_block_ne hr' hstop
        exact .inr ⟨(), r, r ++ k, rfl, rfl, tail h.toCutAt hcode rfl rfl rfl ⟨by decide, rfl⟩,
          Nat.le_refl _, Nat.le_refl _⟩
      · exact .inl ⟨if_neg hc, if_neg hc⟩

theorem symbol {w : String} (hw : isPlain w = true ∨ w = "/") :
    Follows 1 n (Rested (Within k)) (Within k) (text w) (text w) := by
  rcases hw with hw | rfl
  · exact (symbols.text n hw).on fun _ _ h => h.tied
  · rw [text, show "/".toList = ['/'] from rfl, chars_cons]
    exact charSlash.andThen fun _ => .pure ()

theorem operatorOf {level : List Infix} (hlevel : level ∈ levels) :
    Follows 1 n (Rested (Within k)) (Within k) (operatorOf level) (operatorOf level) :=
  operatorOf_follows (symbols.notNext n) hlevel symbol

theorem assignOp : Follows 1 n (Rested (Within k)) (Within k) assignOp assignOp := by
  refine assignOp_follows (symbols.notNext n) (fun hw => symbol (.inl hw)) ?_
    ((symbols.char n rfl).on fun _ _ h => h.tied)
  rw [text, show "/=".toList = ['/', '='] from rfl, chars_cons, chars_cons]
  exact charSlash.andThen fun _ => ((symbols.char n rfl).andThen fun _ => .pure ()).weaken

theorem quoted : Follows 1 n (Within k) (CutAt k) quoted quoted := by
  refine quoted_follows n fun q hq s t h => ?_
  cases s with
  | nil =>
      have hbrace : k.head? = some '\x7d' := h.front.resolve_left fun h => h rfl
      refine .inr ⟨nofun, fun c r hr => ?_⟩
      rw [← h.nil, hr, List.head?_cons, Option.some.injEq] at hbrace
      rw [hbrace]
      rcases hq with rfl | rfl <;> rfl
  | cons c r =>
      rw [h.append, List.cons_append]
      cases hc : c == q with
      | false => exact .inr ⟨by rintro _ _ ⟨⟩; exact hc, by rintro _ _ ⟨⟩; exact hc⟩
      | true =>
          obtain rfl := beq_iff_eq.mp hc
          obtain ⟨w, u, hw, rfl, hu⟩ := h.joins.behind_quote hq
          refine .inl ⟨c, w ++ u, w ++ u ++ k, hc, rfl, rfl, ?_⟩
          rw [List.append_assoc]
          exact hw.content ⟨rfl, hu⟩

end Within

theorem shrinks_gap : Shrinks gap := fun s _ _ h => by cases h; exact (skip_suffix s).length_le

theorem shrinks_inlineGap : Shrinks inlineGap := fun s _ _ h => by
  cases h
  exact (skip_suffix s).length_le

/-- A token is read in front of the joint, or not at all of the cut text. -/
theorem strict_of_token {T U : List Char → List Char → Prop} (hT : ∀ s t, T s t → CutAt k s t)
    (h : Follows 1 n (fun s t => T s t ∧ s ≠ []) U p p) (htakes : Takes p) : Strict k 1 n T U p where
  shrinks := htakes.shrinks
  reads s t hs ht := by
    cases s with
    | nil =>
        obtain rfl := (hT _ _ ht).nil
        refine .inl ⟨?_, fun a r hr => htakes _ a r hr⟩
        rw [Option.eq_none_iff_forall_ne_some]
        intro x hx
        cases htakes _ _ _ hx
    | cons c s =>
        rcases h _ t hs ⟨ht, nofun⟩ with ⟨hps, hpt⟩ | hread
        · exact .inl ⟨hps, fun a r hr => by cases hpt.symm.trans hr⟩
        · exact .inr hread

/-- A token that is only there in the whole text stands behind the joint. -/
theorem nil_of_lost {U : List Char → List Char → Prop} (h : Follows 1 n (Within k) U p p)
    (hcut : CutAt k s t) (hs : s.length < n) (hps : p s = none) (hpt : p t ≠ none) : s = [] := by
  by_contra hne
  exact hpt (h.fails hs ⟨hcut, .inl hne⟩ hps)

theorem strict_of_within (h : Follows 1 n (Within k) (CutAt k) p p) (htakes : Takes p) :
    Strict k 1 n (CutAt k) (CutAt k) p :=
  strict_of_token (fun _ _ h => h) (h.on fun _ _ h => ⟨h.1, .inl h.2⟩) htakes

theorem strict_of_rested (h : Follows 1 n (Rested (Within k)) (Within k) p p) (htakes : Takes p) :
    Strict k 1 n (Rested (CutAt k)) (CutAt k) p :=
  strict_of_token (fun _ _ h => h.tied)
    ((h.on fun _ _ h => ⟨⟨h.1.tied, .inl h.2⟩, h.1.stop⟩).imp fun _ _ h => h.toCutAt) htakes

theorem strict_of_symbols (h : ∀ {T}, Symbols T → ∀ n, Follows 1 n T T p p) :
    Strict k 1 n (CutAt k) (CutAt k) p :=
  strict_of_within ((h Within.symbols n).imp fun _ _ h => h.toCutAt)
    (takes_of_follows fun n => h Same.tie.symbols n)

theorem strict_quoted : Strict k 1 n (CutAt k) (CutAt k) quoted :=
  strict_of_within Within.quoted (takes_of_follows fun n => Same.tie.quoted n)

theorem takes_operatorOf (level : List Infix) : Takes (operatorOf level) := by
  induction level with
  | nil => exact .failure
  | cons i rest ih =>
      refine .orElse (.bind (.text ?_) fun _ => (Shrinks.notNext _).bind fun _ => .pure _) ih
      cases i.op <;> decide

theorem takes_assignOp : Takes assignOp := by
  have htext (w : String) (op : AssignOp) (hw : w.toList ≠ []) : Takes (do text w; return op) :=
    .bind (.text hw) fun _ => .pure op
  refine .orElse (htext "+=" _ (by decide)) <| .orElse (htext "-=" _ (by decide)) <|
    .orElse (htext "*=" _ (by decide)) <| .orElse (htext "/=" _ (by decide)) <|
    .orElse (htext "%=" _ (by decide)) ?_
  exact .bind (.char '=') fun _ => (Shrinks.notNext _).bind fun _ => .pure _

theorem strict_operatorOf {level : List Infix} (hlevel : level ∈ levels) :
    Strict k 1 n (Rested (CutAt k)) (CutAt k) (operatorOf level) :=
  strict_of_rested (Within.operatorOf hlevel) (takes_operatorOf level)

theorem strict_assignOp : Strict k 1 n (Rested (CutAt k)) (CutAt k) assignOp :=
  strict_of_rested Within.assignOp takes_assignOp

theorem strict_keyword {w : String} (hw : isPlain w = true) :
    Strict k 1 n (CutAt k) (CutAt k) (keyword w) :=
  strict_of_symbols fun H n => H.keyword n hw

theorem strict_identifier : Strict k 1 n (CutAt k) (CutAt k) identifier :=
  strict_of_symbols fun H n => H.lexemes.identifier n

theorem strict_char (hc : isSymbolic c = true) : Strict k 1 n (CutAt k) (CutAt k) (char c) :=
  strict_of_symbols fun H n => H.char n hc

theorem strict_of_char {U : List Char → List Char → Prop} (h : ∀ r t, CutAt k (c :: r) t → U r (r ++ k)) :
    Strict k 1 n (CutAt k) U (char c) := by
  refine strict_of_token (fun _ _ h => h) ?_ (.char c)
  rintro s t - ⟨hcut, hs⟩
  obtain ⟨c', r, rfl⟩ := List.exists_cons_of_ne_nil hs
  rw [hcut.append, List.cons_append]
  by_cases hc : c' = c
  · subst hc
    exact .inr ⟨(), r, r ++ k, if_pos rfl, if_pos rfl, h r t hcut, Nat.le_refl _, Nat.le_refl _⟩
  · exact .inl ⟨if_neg hc, if_neg hc⟩

theorem strict_semicolon : Strict k 1 n (CutAt k) (CutAt k) (char ';') :=
  strict_of_char fun _ _ h => (h.behind (fun _ => nofun) rfl rfl rfl).2.1

theorem strict_opening (ho : isOpening c = true) : Strict k 1 n (CutAt k) (Inner k) (char c) := by
  refine strict_of_char fun r t h => ?_
  obtain ⟨x, hx, hjoins⟩ := (h.joins.behind_opening ho).exists_closing
  exact ⟨x, ⟨rfl, hx⟩, hjoins⟩

/-- A reader inside of a bracket, whatever texts it goes along with. -/
theorem strict_inner (h : ∀ {T : Nat → List Char → List Char → Prop} (m : Nat), Tie T →
    grammar.Follow T m grammar → Firm (T 0) → Follows 0 m (T 0) (T 0) p p) :
    Strict k 0 n (Inner k) (Inner k) p := by
  refine .of_follows ?_ fun s a r hr => ?_
  · rintro s t hs ⟨x, hx, hjoins⟩
    have hends : Reaching.Ends k (some x) := fun _ => nofun
    rcases h n (Reaching.tie hends) (Reaching.follow hends n) (Reaching.firm hends 0) s t hs hx with
      hfail | ⟨a, r, r', hr, hr', hrest, hleft, hright⟩
    · exact .inl hfail
    · exact .inr ⟨a, r, r', hr, hr', ⟨x, hrest, hjoins⟩, hleft, hright⟩
  · obtain ⟨r', hr', hkept⟩ := (h (s.length + 1) Same.tie (grammar_follow _) (Same.firm 0)).succeeds
      (Nat.lt_succ_self _) rfl hr
    exact hkept.left

theorem strict_closing (hclose : isClosing c = true) :
    Strict k 1 n (Inner k) (CutAt k) (mark c) := by
  refine .of_follows ?_ (shrinks_gap.bind fun _ => (Takes.char c).shrinks)
  rintro s t hs ⟨x, hx, hjoins⟩
  have hends : Reaching.Ends k (some x) := fun _ => nofun
  rcases Reaching.closed hends n hclose s t hs hx with
    hfail | ⟨a, r, r', hr, hr', ⟨hrest, happend⟩, hleft, hright⟩
  · exact .inl hfail
  · cases hrest
    exact .inr ⟨a, x, r', hr, hr', ⟨happend, hjoins⟩, hleft, hright⟩

/-- What stands in brackets is the same to a reader on both texts. -/
theorem strict_bracketed {c' : Char} {f : α → β} (ho : isOpening c = true)
    (hclose : isClosing c' = true)
    (h : ∀ {T : Nat → List Char → List Char → Prop} (m : Nat), Tie T → grammar.Follow T m grammar →
      Firm (T 0) → Follows 0 m (T 0) (T 0) p p) :
    Strict k 1 n (CutAt k) (CutAt k) (do char c; let a ← p; mark c'; return f a) :=
  (strict_opening ho).andThen fun _ => (strict_inner h).bind fun a =>
    (strict_closing hclose).weaken.bind fun _ => .pure (f a)

section

variable (hk : Halt k)

include hk

theorem strict_gap : Strict k 0 n (CutAt k) (Rested (CutAt k)) gap :=
  .of_follows (skip_follows true (fun s _ h => ⟨h.skip hk true, skip_skip s⟩) n) shrinks_gap

theorem strict_inlineGap : Strict k 0 n (CutAt k) (CutAt k) inlineGap :=
  .of_follows (skip_follows false (fun _ _ h => h.skip hk false) n) shrinks_inlineGap

theorem strict_behindGap {U : List Char → List Char → Prop} (h : Strict k j n (CutAt k) U p) :
    Strict k j n (CutAt k) U (do gap; p) :=
  (strict_gap hk).bind fun _ => h.on fun _ _ h => h.tied

theorem strict_mark (hc : isSymbolic c = true) : Strict k 1 n (CutAt k) (CutAt k) (mark c) :=
  strict_behindGap hk (strict_char hc)

theorem strict_markOpening (ho : isOpening c = true) : Strict k 1 n (CutAt k) (Inner k) (mark c) :=
  strict_behindGap hk (strict_opening ho)

theorem strict_sameLine : Strict k 0 n (CutAt k) (CutAt k) sameLine := by
  refine (strict_inlineGap hk).bind fun _ => .of_follows ?_ (.notNext _)
  rintro s _ - ⟨rfl, hs⟩
  cases s with
  | nil =>
      refine .inr ⟨(), [], k, rfl, notNext_eq_some_iff.mpr ⟨rfl, fun c r hr => ?_⟩, cutAt_nil k,
        Nat.le_refl _, Nat.le_refl _⟩
      rw [← Bool.not_eq_true]
      intro hline
      cases (hk.not_isGapBlank hr).symm.trans (isGapBlank_of_isLineEnd hline)
  | cons c s =>
      rw [List.cons_append, notNext, notNext]
      cases isLineEnd c with
      | true => exact .inl ⟨rfl, rfl⟩
      | false => exact .inr ⟨(), _, _, rfl, rfl, ⟨rfl, hs⟩, Nat.le_refl _, Nat.le_refl _⟩

end

end SmallScript.Grammar
