import SmallScript.Grammar.Expression
import SmallScript.Proofs.Grouping
import SmallScript.Proofs.Lexical.Gap
import SmallScript.Proofs.Repetition
import Mathlib.Data.Bool.AllAny

namespace SmallScript

namespace Scan

theorem chars_stop {c : Char} {v : List Char} (hv : c ∉ v) (w r : List Char) :
    chars v (w ++ c :: r) =
      if v.isPrefixOf w then some ((), w.drop v.length ++ c :: r) else none := by
  induction v generalizing w with
  | nil => simp [chars]
  | cons d v ih =>
      rw [List.mem_cons, not_or] at hv
      obtain ⟨hd, hv⟩ := hv
      cases w with
      | nil => exact if_neg hd
      | cons e w =>
          rw [List.cons_append, chars]
          by_cases he : e = d
          · subst he
            simpa using ih hv w
          · rw [if_neg he, if_neg]
            simp [Ne.symm he]

end Scan

namespace Grammar

open Lexical Scan

def Infix.matches (i : Infix) (w : List Char) : Bool :=
  i.op.symbol.toList.isPrefixOf w &&
    !(w.drop i.op.symbol.toList.length).head?.any i.notBefore.contains

def Infix.characters (i : Infix) : List Char := i.op.symbol.toList ++ i.notBefore

variable {c : Char} {level : List Infix}

theorem Infix.scan_stop {i : Infix} (hc : c ∉ i.characters) (w r : List Char) :
    i.scan (w ++ c :: r) = if i.matches w then
      some (i.op, w.drop i.op.symbol.toList.length ++ c :: r) else none := by
  rw [characters, List.mem_append, not_or] at hc
  rw [scan, bind_apply, text, chars_stop hc.1, Infix.matches]
  cases i.op.symbol.toList.isPrefixOf w with
  | false => rfl
  | true =>
      cases hrest : w.drop i.op.symbol.toList.length with
      | nil => simp [bind_apply, notNext, pure_apply, hc.2]
      | cons d v => by_cases hd : d ∈ i.notBefore <;> simp [bind_apply, notNext, pure_apply, hd]

theorem operatorOf_stop (hc : ∀ i ∈ level, c ∉ i.characters) (w r : List Char) :
    operatorOf level (w ++ c :: r) = (level.find? (·.matches w)).map fun i =>
      (i.op, w.drop i.op.symbol.toList.length ++ c :: r) := by
  induction level with
  | nil => rfl
  | cons i level ih =>
      rw [operatorOf, orElse_apply, Infix.scan_stop (hc i List.mem_cons_self),
        ih fun j hj => hc j (List.mem_cons_of_mem i hj), List.find?_cons]
      cases i.matches w <;> rfl

theorem characters_levels : ∀ level ∈ levels, ∀ i ∈ level, ∀ c ∈ i.characters,
    isGapBlank true c = false := by
  have hall : ∀ level ∈ levels, ∀ i ∈ level,
      (i.characters.all fun c => isGapBlank true c = false) = true := by decide
  exact fun level hlevel i hi => List.all_iff_forall_prop.mp (hall level hlevel i hi)

/-- The levels of the grammar stand in the order of binding. -/
theorem find?_matches (op : BinaryOp) : ∀ i : Fin levels.length,
    (levels[i].find? (·.matches op.symbol.toList)).map (·.op) =
      if op.binding + i = 10 then some op else none := by
  cases op <;> decide

/-- In front of a blank, a symbol is read as its operator at the level of that operator only. -/
theorem operatorOf_symbol (hc : isGapBlank true c = true) (op : BinaryOp) {j : Nat}
    (hj : j < levels.length) (r : List Char) : operatorOf levels[j] (op.symbol.toList ++ c :: r) =
      if op.binding + j = 10 then some (op, c :: r) else none := by
  have hstop : ∀ i ∈ levels[j], c ∉ i.characters := fun i hi hmem =>
    Bool.false_ne_true ((characters_levels _ (List.getElem_mem hj) i hi c hmem).symm.trans hc)
  have hfind := find?_matches op ⟨j, hj⟩
  rw [Fin.getElem_fin] at hfind
  rw [operatorOf_stop hstop]
  generalize levels[j] = level at hfind
  split at hfind
  next h =>
    obtain ⟨i, hi, rfl⟩ := Option.map_eq_some_iff.mp hfind
    rw [hi, if_pos h, Option.map_some, List.drop_length, List.nil_append]
  next h =>
    rw [Option.map_eq_none_iff.mp hfind, if_neg h, Option.map_none]

theorem symbol_front (op : BinaryOp) : ∃ d w, op.symbol.toList = d :: w ∧
    (∀ across, isGapBlank across d = false) ∧ d ∉ ['(', '.', '['] ∧ (d = '/' → w = []) ∧
    (d = '+' ∨ d = '-' → w = []) := by
  cases op <;> exact ⟨_, _, rfl, by decide, by decide, by decide, by decide⟩

end Grammar

end SmallScript
