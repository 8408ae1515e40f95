import SmallScript.Console.Entry
import SmallScript.Proofs.Grammar.Tidy
import Mathlib

namespace SmallScript.Console

open Lexical

/-- A comment that ends with its line ends at a line feed, or at a carriage return in front of one. -/
def EndsInFeed : Zone → List Char → Prop
  | .line, c :: r => isLineEnd c = true → c = '\n' ∨ c = '\r' ∧ r.head? = some '\n'
  | _, _ => True

instance (z : Zone) : DecidablePred (EndsInFeed z) := fun s =>
  match z, s with
  | .line, c :: r =>
    inferInstanceAs (Decidable (isLineEnd c = true → c = '\n' ∨ c = '\r' ∧ r.head? = some '\n'))
  | .line, [] | .code, _ | .block _ _, _ | .quote _, _ => .isTrue (by simp [EndsInFeed])

variable {d : Nat} {c q : Char} {r w : List Char} (brackets : List Char)

theorem leavesOpen_cons (hc : NoComment c r) : leavesOpen .code brackets (c :: r) =
    if Lexical.isQuote c then leavesOpen (.string c) brackets r
    else if Lexical.isOpening c then leavesOpen .code (c :: brackets) r
    else
      match openingOf? c with
      | none => leavesOpen .code brackets r
      | some o =>
        match brackets with
        | [] => false
        | b :: brackets => if b = o then leavesOpen .code brackets r else false :=
  leavesOpen.eq_3 brackets c r (fun r' h => (hc r' h).1) fun r' h => (hc r' h).2

theorem openingOf?_eq_none (h : Lexical.isClosing c = false) : openingOf? c = none := by
  simp only [isClosing, Bool.or_eq_false_iff, beq_eq_false_iff_ne] at h
  unfold openingOf?
  split
  · exact (h.1.1 rfl).elim
  · exact (h.1.2 rfl).elim
  · exact (h.2 rfl).elim
  · rfl

theorem openingOf?_of_isClosing (h : Lexical.isClosing c = true) :
    ∃ o, openingOf? c = some o ∧ Lexical.isOpening c = false := by
  simp only [isClosing, Bool.or_eq_true, beq_iff_eq] at h
  rcases h with (rfl | rfl) | rfl
  · exact ⟨'(', rfl, rfl⟩
  · exact ⟨'[', rfl, rfl⟩
  · exact ⟨'\x7b', rfl, rfl⟩

theorem leavesOpen_blank (h : isGapBlank true c = true) (r : List Char) :
    leavesOpen .code brackets (c :: r) = leavesOpen .code brackets r := by
  obtain ⟨-, hopen, hclose⟩ := not_bracket_of_isGapBlank h
  rw [leavesOpen_cons brackets (.of_isGapBlank h r), isQuote_of_isGapBlank h, hopen,
    openingOf?_eq_none hclose]
  rfl

theorem leavesOpen_line (h : InZones EndsInFeed .line r) : leavesOpen .line brackets r =
    leavesOpen .code brackets (r.dropWhile fun c => !isLineEnd c) := by
  induction r with
  | nil => rfl
  | cons c r ih =>
      rw [leavesOpen]
      have hend := h (.line, c :: r) (List.mem_cons_self ..)
      cases hc : isLineEnd c with
      | false =>
          have hfeed : c ≠ '\n' := by
            rintro rfl
            cases hc
          rw [if_neg hfeed, List.dropWhile_cons_of_pos (by simp [hc])]
          refine ih fun x hx => h x (List.mem_cons_of_mem _ ?_)
          rw [hc]
          exact hx
      | true =>
          rw [List.dropWhile_cons_of_neg (by simp [hc]),
            leavesOpen_blank brackets (isGapBlank_of_isLineEnd hc)]
          rcases hend hc with rfl | ⟨rfl, hfeed⟩
          · rfl
          · cases r with
            | nil => cases hfeed
            | cons c r =>
                cases hfeed
                exact (leavesOpen_blank brackets (c := '\n') rfl r).symm

theorem leavesOpen_block {r' : List Char} (h : blockEnd true r = some r') :
    leavesOpen .block brackets r = leavesOpen .code brackets r' := by
  fun_induction blockEnd true r with
  | case1 r =>
      cases h
      rfl
  | case2 => contradiction
  | case3 c r hstar _ ih => rw [leavesOpen.eq_11 _ _ _ hstar, ih h]
  | case4 => cases h

theorem leavesOpen_whole (hq : IsQuote q) (h : Whole q w) (r : List Char) :
    leavesOpen (.string q) brackets (w ++ r) = leavesOpen .code brackets r := by
  induction h with
  | close =>
      rw [List.singleton_append, leavesOpen.eq_6 _ _ _ _ fun _ _ h => (ne_backslash hq h.symm).elim,
        if_pos (.inr rfl)]
  | plain c hc hq' hline _ ih =>
      rw [List.cons_append, leavesOpen.eq_6 _ _ _ _ fun _ _ h => (hc h).elim, if_neg, ih]
      rintro (rfl | rfl)
      · exact hline (.inl rfl)
      · exact hq' rfl
  | escaped c _ ih => exact ih

/-- The console and the grammar agree on what is open, if they agree on where comments end. -/
theorem leavesOpen_of_tidy {s : List Char} (hs : Tidy d s) (hfeed : InZones EndsInFeed .code s)
    (hd : brackets.length = d) : leavesOpen .code brackets s = false := by
  induction d, s, hs using tidy_induction generalizing brackets with
  | nil =>
      rw [List.length_eq_zero_iff.mp hd]
      rfl
  | line d r _ _ ih =>
      have hline : InZones EndsInFeed .line r := fun x hx => hfeed x (List.mem_cons_of_mem _ hx)
      show leavesOpen .line brackets r = false
      rw [leavesOpen_line brackets hline]
      exact ih brackets (hline.mono (zonedFrom_line r)) hd
  | block d r r' _ _ hr ih =>
      show leavesOpen .block brackets r = false
      rw [leavesOpen_block brackets hr]
      exact ih brackets
        (hfeed.mono (List.subset_cons_of_subset _ (zonedFrom_block hr _ _))) hd
  | quote d q w r _ _ hq hw ih =>
      have hbehind := hfeed.behind (hq.noComment _)
      rw [hq.behind_eq] at hbehind
      rw [leavesOpen_cons brackets (hq.noComment _), if_pos (isQuote_iff.mpr hq), leavesOpen_whole brackets hq hw]
      exact ih brackets (hbehind.mono (zonedFrom_closed hq hw.closed r)) hd
  | opening d c r _ _ ho ih =>
      have hq : Lexical.isQuote c = false := isQuote_eq_false ⟨rfl, rfl⟩ ho
      have hc : NoComment c r := .of_ne (by rintro rfl; cases ho) r
      have hbehind := hfeed.behind hc
      rw [behind_of_not_isQuote hq] at hbehind
      rw [leavesOpen_cons brackets hc, hq, if_neg Bool.false_ne_true, if_pos ho]
      exact ih (c :: brackets) hbehind (by rw [List.length_cons, hd])
  | closing d c r _ _ hclose ih =>
      have hq : Lexical.isQuote c = false := isQuote_eq_false ⟨rfl, rfl⟩ hclose
      have hc : NoComment c r := .of_ne (by rintro rfl; cases hclose) r
      have hbehind := hfeed.behind hc
      rw [behind_of_not_isQuote hq] at hbehind
      obtain ⟨o, ho, hopen⟩ := openingOf?_of_isClosing hclose
      rw [leavesOpen_cons brackets hc, hq, hopen, ho]
      cases brackets with
      | nil => rfl
      | cons b brackets =>
          by_cases hb : b = o
          · simpa [hb] using ih brackets hbehind (Nat.succ.inj hd)
          · simp [hb]
  | plain d c r _ _ hc _ ho hclose hq ih =>
      have hbehind := hfeed.behind hc
      rw [behind_of_not_isQuote hq] at hbehind
      rw [leavesOpen_cons brackets hc, hq, ho, openingOf?_eq_none hclose]
      exact ih brackets hbehind hd

/-- A program whose comments end at line feeds is a finished entry, unless it ends in a backslash. -/
theorem isIncomplete_of_parse {source : String} {t : Program} (h : Program.parse source = .ok t)
    (hfeed : InZones EndsInFeed .code source.toList) :
    isIncomplete source = false ∧
      (continues source = true ↔ source.toList.getLast? = some '\\') := by
  have hcomplete : isIncomplete source = false :=
    leavesOpen_of_tidy [] (Grammar.tidy_of_ofChars? h) hfeed rfl
  refine ⟨hcomplete, ?_⟩
  rw [continues, hcomplete, Bool.or_false, beq_iff_eq]

/-- A function with a comment at the end of a line, and a string that goes on with the next one. -/
theorem isIncomplete_of_parse_comment :
    Program.parse "function f() \x7b // '(\r\n return 'a\\\nb(' /* [ */ \x7d" =
        .ok [.function (.mk (some "f") [] [.returnValue (some (.string "ab("))])] ∧
      isIncomplete "function f() \x7b // '(\r\n return 'a\\\nb(' /* [ */ \x7d" = false := by
  have h : Program.parse "function f() \x7b // '(\r\n return 'a\\\nb(' /* [ */ \x7d" =
      .ok [.function (.mk (some "f") [] [.returnValue (some (.string "ab("))])] := by cbv
  exact ⟨h, (isIncomplete_of_parse h (by decide)).1⟩

/-- A comment that a carriage return ends keeps the entry open. -/
example : Program.parse "\x7b//\r\x7d" = .ok [.block []] ∧ isIncomplete "\x7b//\r\x7d" = true := by
  constructor
  · cbv
  · decide

end SmallScript.Console
