import SmallScript.Fault
import SmallScript.Proofs.Grammar.Cut.Statement
import Mathlib

namespace SmallScript

namespace UnexpectedToken

/-- The error points at `rest`, which stands behind `before`. -/
structure PointsAt (e : UnexpectedToken) (before rest : List Char) : Prop where
  line : e.line = 1 + before.count '\n'
  column : ∃ lines line, before = lines ++ line ∧ (∀ c ∈ lines.getLast?, c = '\n') ∧ '\n' ∉ line ∧
    e.column = before.length - lines.length + 1
  token : e.token = String.ofList (Text.trimEnd ((rest.takeWhile (!Lexical.isLineEnd ·)).take 20))

theorem between_pointsAt (before rest : List Char) : (between before rest).PointsAt before rest where
  line := Nat.add_comm _ 1
  column := by
    refine ⟨(before.reverse.dropWhile (· != '\n')).reverse,
      (before.reverse.takeWhile (· != '\n')).reverse, ?_, fun c hc => ?_, fun hline => ?_, ?_⟩
    · rw [← List.reverse_append, List.takeWhile_append_dropWhile, List.reverse_reverse]
    · have hhead := List.head?_dropWhile_not (· != '\n') before.reverse
      rw [List.getLast?_reverse, Option.mem_def] at hc
      rw [hc] at hhead
      simpa using hhead
    · rw [List.mem_reverse] at hline
      simpa using List.all_eq_true.mp List.all_takeWhile '\n' hline
    · have hsplit := congrArg List.length
        (List.takeWhile_append_dropWhile (p := (· != '\n')) (l := before.reverse))
      rw [List.length_append, List.length_reverse] at hsplit
      show (before.reverse.takeWhile (· != '\n')).length + 1 = _
      rw [List.length_reverse]
      omega
  token := rfl

end UnexpectedToken

namespace Grammar

open Lexical Scan

/-- Statements read one after the other from the front of a text, and what they leave. -/
inductive InTurn : List Char → List Stmt → List Char → Prop where
  | done (s : List Char) : InTurn s [] s
  | step {s u r : List Char} {t : Stmt} {ts : List Stmt} (h : grammar.stmt s = some (t, u))
      (hrest : InTurn u ts r) : InTurn s (t :: ts) r

/-- The longest list of statements at the front of a text, and what it leaves. -/
structure Longest (s : List Char) (ts : List Stmt) (r : List Char) : Prop where
  reads : InTurn s ts r
  longest : ∀ us u, InTurn s us u → us <+: ts

variable {k s t r : List Char} {ts : List Stmt}

namespace InTurn

theorem of_many (h : many (stmt grammar) s = some (ts, r)) : InTurn s ts r := by
  induction ts generalizing s with
  | nil => exact eq_of_many_nil h ▸ .done r
  | cons t ts ih =>
      obtain ⟨u, hu, hts⟩ := of_many_cons stmt_takes h
      exact .step (by rw [grammar_stmt, hu]) (ih hts)

/-- No list of statements goes on longer than the repetition. -/
theorem isPrefix {us : List Stmt} {u : List Char} (h : InTurn s us u)
    (hmany : many (stmt grammar) s = some (ts, r)) : us <+: ts := by
  induction h generalizing ts with
  | done s => exact List.nil_prefix
  | @step s u r' t us ht hrest ih =>
      rw [grammar_stmt] at ht
      rw [many_of_some stmt_takes ht, Option.map_eq_some_iff] at hmany
      obtain ⟨x, hx, heq⟩ := hmany
      cases heq
      exact (List.prefix_cons_inj t).mpr (ih hx)

end InTurn

theorem longest_of_many (h : many (stmt grammar) s = some (ts, r)) : Longest s ts r :=
  ⟨.of_many h, fun _ _ hus => hus.isPrefix h⟩

theorem stmt_of_many (h : many (stmt grammar) s = some (ts, r)) : stmt grammar r = none := by
  induction ts generalizing s with
  | nil =>
      obtain rfl := eq_of_many_nil h
      cases hstmt : stmt grammar r with
      | none => rfl
      | some x =>
          rw [many_of_some stmt_takes hstmt, Option.map_eq_some_iff] at h
          obtain ⟨y, -, heq⟩ := h
          cases heq
  | cons t ts ih =>
      obtain ⟨u, -, hts⟩ := of_many_cons stmt_takes h
      exact ih hts

/-- Statements that lead to `k` are read in the same way if the text is cut off there. -/
theorem many_cut (hk : Halt k) (hcut : CutAt k s t) (h : many (stmt grammar) t = some (ts, r))
    (hr : skipGap r = k) : ∃ u, many (stmt grammar) s = some (ts, u) ∧ skipGap u = [] := by
  induction ts generalizing s t with
  | nil =>
      obtain rfl := eq_of_many_nil h
      have hskip : skipGap r = skipGap s ++ k := (hcut.skip hk true).append
      have hnil : skipGap s = [] := List.append_left_eq_self.mp (hskip.symm.trans hr)
      refine ⟨s, many_of_none ?_, hnil⟩
      rw [← stmt_skipGap, hnil]
      rfl
  | cons x ts ih =>
      obtain ⟨u, hu, hts⟩ := of_many_cons stmt_takes h
      have hleft : (skipGap r).length ≤ r.length := (skip_suffix r).length_le
      have hstmt := (grammar_keeps hk (s.length + 1)).2.2
      rw [grammar_stmt] at hstmt
      rcases hstmt.reads s t (Nat.lt_succ_self _) hcut x u hu with
        (hshort | hstuck) | ⟨v, hv, hkept⟩
      · have := stmt_takes.shrinks.many u ts r hts
        rw [hr] at hleft
        omega
      · obtain ⟨hfails, hlength⟩ := hstuck.fails
        rw [many_of_none hfails] at hts
        cases hts
        rw [hr] at hlength
        exact (Nat.lt_irrefl _ hlength).elim
      · obtain ⟨w, hw, hgap⟩ := ih hkept.rest hts
        exact ⟨w, by rw [many_of_some stmt_takes hv, hw]; rfl, hgap⟩

/-- A text is refused if statements do not reach to the gap at its end. -/
theorem ofChars?_eq_error {e : ParseError} (h : Program.ofChars? s = .error e) :
    ∃ ts r, many (stmt grammar) s = some (ts, r) ∧ skipGap r ≠ [] ∧
      e = .ofPosition s (some (s.length - (skipGap r).length)) := by
  rw [Program.ofChars?, statements_eq] at h
  rw [many]
  cases hread : repeated (stmt grammar) s with
  | mk ts r =>
      rw [hread] at h
      refine ⟨ts, r, rfl, ?_⟩
      cases hgap : skipGap r with
      | nil =>
          simp only [hgap, endOfText] at h
          cases h
      | cons c u =>
          simp only [hgap, endOfText, Except.error.injEq] at h
          exact ⟨List.cons_ne_nil c u, h.symm⟩

theorem ofPosition_append {before rest : List Char} (hrest : rest ≠ []) :
    ParseError.ofPosition (before ++ rest) (some before.length) =
      .unexpectedToken (.between before rest) := by
  have hlength : before.length < (before ++ rest).length := by
    rw [List.length_append]
    exact Nat.lt_add_of_pos_right (List.length_pos_iff.mpr hrest)
  rw [ParseError.ofPosition, if_pos hlength, List.take_left, List.drop_left]

end Grammar

namespace Program

open Grammar Lexical Scan

theorem parse_refused {source : String} {e : ParseError} (h : parse source = .error e) :
    ∃ t before rest program left,
      e = .unexpectedToken t ∧ source.toList = before ++ rest ∧ rest ≠ [] ∧
      (Fault.unparsable e).kind = .syntaxError ∧
      (Fault.unparsable e).wording = "Unexpected token '" ++ t.token ++ "' at line " ++
        toString t.line ++ ", column " ++ toString t.column ∧
      t.PointsAt before rest ∧
      parse (String.ofList before) = .ok program ∧
      grammar.stmt rest = none ∧
      Longest source.toList program left ∧ skipGap left = rest := by
  obtain ⟨program, left, hmany, hrest, he⟩ := ofChars?_eq_error h
  have hk : Halt (skipGap left) :=
    ⟨hrest, skip_skip left, by rw [stmt_skipGap]; exact stmt_of_many hmany⟩
  obtain ⟨before, hsource, hjoins⟩ : Joined (skipGap left) 0 source.toList :=
    joined_of_many hk hmany (.skip hk true ⟨[], rfl, .nil⟩)
  obtain ⟨r, hr, hgap⟩ := many_cut hk ⟨hsource, hjoins⟩ hmany rfl
  have herror : e = .unexpectedToken (.between before (skipGap left)) := by
    rw [he, hsource, List.length_append, Nat.add_sub_cancel, ofPosition_append hrest]
  refine ⟨_, before, skipGap left, program, left, herror, hsource, hrest, rfl, ?_, ?_, ?_, ?_,
    longest_of_many hmany, rfl⟩
  · rw [herror]
    rfl
  · exact UnexpectedToken.between_pointsAt before (skipGap left)
  · rw [parse, String.toList_ofList]
    exact ofChars?_eq_ok.mpr ⟨r, by rw [grammar_stmts, hr], hgap⟩
  · rw [grammar_stmt]
    exact hk.stmt

/-- Without its other branch the statement in front of `else` is read like the whole one. -/
theorem parse_refused_else :
    parse "if (a) b\nelse ?" = .error (.unexpectedToken ⟨"else ?", 2, 1⟩) ∧
    ∃ before rest program left,
      "if (a) b\nelse ?".toList = before ++ rest ∧ rest ≠ [] ∧
      (Fault.unparsable (.unexpectedToken ⟨"else ?", 2, 1⟩)).kind = .syntaxError ∧
      (Fault.unparsable (.unexpectedToken ⟨"else ?", 2, 1⟩)).wording =
        "Unexpected token '" ++ "else ?" ++ "' at line " ++ toString 2 ++ ", column " ++
          toString 1 ∧
      (UnexpectedToken.mk "else ?" 2 1).PointsAt before rest ∧
      parse (String.ofList before) = .ok program ∧
      grammar.stmt rest = none ∧
      Longest "if (a) b\nelse ?".toList program left ∧ skipGap left = rest := by
  have h : parse "if (a) b\nelse ?" = .error (.unexpectedToken ⟨"else ?", 2, 1⟩) := by cbv
  obtain ⟨_, before, rest, program, left, ht, hrefused⟩ := parse_refused h
  cases ht
  exact ⟨h, before, rest, program, left, hrefused⟩

end Program

end SmallScript
