import SmallScript.Proofs.Lexical.Lexeme
import SmallScript.Proofs.Repetition

namespace SmallScript.Lexical

open Scan

def isWord (w : String) : Bool :=
  match w.toList with
  | c :: cs => isNameStart c && cs.all isNamePart
  | [] => false

variable {s r : List Char} {w v : String} {u : Unit}

theorem name_cons (c : Char) (r : List Char) : name (c :: r) = if isNameStart c then
    some (String.ofList (c :: r.takeWhile isNamePart), r.dropWhile isNamePart) else none := by
  rw [name, bind_apply, satisfy]
  cases isNameStart c <;> rfl

theorem name_eq_some_iff : name s = some (w, r) ↔
    s = w.toList ++ r ∧ isWord w = true ∧ ∀ c r', r = c :: r' → isNamePart c = false := by
  constructor
  · intro h
    cases s with
    | nil => cases h
    | cons c s =>
        rw [name_cons, Option.ite_none_right_eq_some] at h
        obtain ⟨hc, heq⟩ := h
        cases heq
        rw [isWord, String.toList_ofList]
        refine ⟨by rw [List.cons_append, List.takeWhile_append_dropWhile], ?_, ?_⟩
        · simp only [hc, List.all_takeWhile, Bool.and_self]
        · intro d r' hr
          have hhead := List.head?_dropWhile_not isNamePart s
          rw [hr] at hhead
          simpa using hhead
  · rintro ⟨rfl, hw, hr⟩
    rw [isWord] at hw
    cases hlist : w.toList with
    | nil =>
        rw [hlist] at hw
        cases hw
    | cons c cs =>
        rw [hlist] at hw
        obtain ⟨hc, hcs⟩ := Bool.and_eq_true_iff.mp hw
        have hrest : r.takeWhile isNamePart = [] ∧ r.dropWhile isNamePart = r := by
          cases r with
          | nil => exact ⟨rfl, rfl⟩
          | cons d r =>
              have hd := hr d r rfl
              exact ⟨List.takeWhile_cons_of_neg (by simp [hd]),
                List.dropWhile_cons_of_neg (by simp [hd])⟩
        rw [List.all_eq_true] at hcs
        rw [List.cons_append, name_cons, if_pos hc, List.takeWhile_append_of_pos hcs,
          List.dropWhile_append_of_pos hcs, hrest.1, hrest.2, List.append_nil, ← hlist,
          String.ofList_toList]

theorem keyword_eq_some_iff (hw : isWord w = true) :
    keyword w s = some (u, r) ↔ name s = some (w, r) := by
  rw [name_eq_some_iff, keyword, bind_apply, text]
  constructor
  · intro h
    cases hs : chars w.toList s with
    | none =>
        rw [hs] at h
        cases h
    | some x =>
        rw [hs] at h
        obtain ⟨hr, hnext⟩ := notNext_eq_some_iff.mp h
        exact ⟨hr ▸ eq_append_of_chars hs, hw, hr ▸ hnext⟩
  · rintro ⟨rfl, -, hr⟩
    rw [chars_append]
    exact notNext_eq_some_iff.mpr ⟨rfl, hr⟩

theorem isWord_of_reserved : ∀ w ∈ reservedWords, isWord w = true := by
  decide

def Unreserved (s : List Char) : Prop := ∀ w ∈ reservedWords, keyword w s = none

theorem unreserved_of_name (h : name s = some (v, r)) (hv : v ∉ reservedWords) : Unreserved s := by
  intro w hw
  rw [Option.eq_none_iff_forall_ne_some]
  intro x hx
  rw [keyword_eq_some_iff (isWord_of_reserved w hw), h] at hx
  cases hx
  exact hv hw

theorem unreserved_of_front (h : ∀ c r, s = c :: r → isNameStart c = false) : Unreserved s := by
  intro w hw
  rw [Option.eq_none_iff_forall_ne_some]
  intro x hx
  rw [keyword_eq_some_iff (isWord_of_reserved w hw)] at hx
  cases ((First.bind First.satisfy).fails h).symm.trans hx

theorem identifier_eq_some_iff :
    identifier s = some (w, r) ↔ name s = some (w, r) ∧ w ∉ reservedWords := by
  rw [identifier, bind_apply]
  cases hs : name s with
  | none => exact ⟨nofun, nofun⟩
  | some x =>
      rw [Option.bind_some]
      split
      · refine ⟨nofun, ?_⟩
        rintro ⟨⟨⟩, hw⟩
        exact (hw ‹_›).elim
      · constructor
        · rintro ⟨⟩
          exact ⟨rfl, ‹_›⟩
        · rintro ⟨⟨⟩, -⟩
          rfl

end SmallScript.Lexical
