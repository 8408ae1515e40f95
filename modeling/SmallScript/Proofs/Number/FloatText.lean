import SmallScript.Number.FloatText
import SmallScript.Proofs.Number.Numeral
import Mathlib

namespace SmallScript.Number.FloatText

open Lexical Numeral Double

variable {s t ds whole : List Char} {c : Char} {x : Float}

theorem takeWhile_of_stop {F : Char → Bool} {u v : List Char} (hu : ∀ c ∈ u, F c = true)
    (hv : ∀ c ∈ v.head?, F c = false) :
    (u ++ v).takeWhile F = u ∧ (u ++ v).dropWhile F = v := by
  rw [List.takeWhile_append_of_pos hu, List.dropWhile_append_of_pos hu]
  cases v with
  | nil => simp
  | cons c v => simp [hv c rfl]

theorem exponentDigits?_of (hne : ds ≠ []) (hds : ∀ c ∈ ds, isDigit c = true) :
    exponentDigits? ds = some (exponentOf ds : ℤ) :=
  if_pos ⟨hne, List.all_eq_true.mpr hds⟩

theorem of_exponentDigits? {n : ℤ} (h : exponentDigits? ds = some n) :
    ds ≠ [] ∧ (∀ c ∈ ds, isDigit c = true) ∧ n = exponentOf ds := by
  rw [exponentDigits?, Option.ite_none_right_eq_some] at h
  exact ⟨h.1.1, List.all_eq_true.mp h.1.2, (Option.some.inj h.2).symm⟩

theorem exponent?_text (e : Exponent) : exponent? e.text = some e.read := by
  obtain ⟨mark, sign, ds, hmark, hsign, hne, hds⟩ := e
  have hread := exponentDigits?_of hne hds
  rw [Exponent.text, exponent?, if_pos hmark]
  cases sign with
  | none =>
      rw [Option.toList_none, List.nil_append]
      fun_cases signedDigits? ds with
      | case1 => cases hds '-' List.mem_cons_self
      | case2 => cases hds '+' List.mem_cons_self
      | case3 => exact hread
  | some c =>
      rcases hsign c rfl with rfl | rfl
      · exact hread
      · exact congrArg (Option.map fun n => -n) hread

theorem exponent?_sound {e : ℤ} (h : exponent? s = some e) :
    ∃ g : Option Exponent, s = g.elim [] Exponent.text ∧ e = g.elim 0 Exponent.read := by
  cases s with
  | nil =>
      cases h
      exact ⟨none, rfl, rfl⟩
  | cons c r =>
      rw [exponent?, Option.ite_none_right_eq_some] at h
      obtain ⟨hmark, h⟩ := h
      unfold signedDigits? at h
      split at h
      · obtain ⟨n, hn, rfl⟩ := Option.map_eq_some_iff.mp h
        obtain ⟨hne, hds, rfl⟩ := of_exponentDigits? hn
        exact ⟨some ⟨c, some '-', _, hmark, by simp, hne, hds⟩, rfl, rfl⟩
      · obtain ⟨hne, hds, rfl⟩ := of_exponentDigits? h
        exact ⟨some ⟨c, some '+', _, hmark, by simp, hne, hds⟩, rfl, rfl⟩
      · obtain ⟨hne, hds, rfl⟩ := of_exponentDigits? h
        exact ⟨some ⟨c, none, _, hmark, nofun, hne, hds⟩, rfl, rfl⟩

theorem isDigit_head_exponent (g : Option Exponent) :
    ∀ c ∈ (g.elim [] Exponent.text).head?, isDigit c = false := by
  cases g with
  | none => exact nofun
  | some e =>
      rintro _ ⟨⟩
      rcases e.isMark with h | h <;> rw [h] <;> rfl

theorem number?_text (g : Decimal) : number? g.text = some g.read := by
  obtain ⟨⟨whole, places, hwhole, hplaces, hne⟩, e⟩ := g
  have hstop := isDigit_head_exponent e
  have hexponent : exponent? (e.elim [] Exponent.text) = some (e.elim 0 Exponent.read) := by
    cases e with
    | none => rfl
    | some e => exact exponent?_text e
  have hsplit : fraction (places.elim [] ('.' :: ·) ++ e.elim [] Exponent.text) =
      (places.getD [], e.elim [] Exponent.text) := by
    cases places with
    | none =>
        cases e with
        | none => rfl
        | some e =>
            have hmark : e.mark ≠ '.' := by
              rcases e.isMark with h | h <;> rw [h] <;> decide
            simp [fraction, Exponent.text, hmark]
    | some ds =>
        obtain ⟨htake, hdrop⟩ := takeWhile_of_stop hplaces hstop
        exact Prod.ext htake hdrop
  have hpoint : ∀ c ∈ (places.elim [] ('.' :: ·) ++ e.elim [] Exponent.text).head?,
      isDigit c = false := by
    cases places with
    | none => exact hstop
    | some ds =>
        rintro _ ⟨⟩
        rfl
  obtain ⟨htake, hdrop⟩ := takeWhile_of_stop hwhole hpoint
  have hdigits : ¬(whole = [] ∧ places.getD [] = []) := fun h => hne (by rw [h.1, h.2]; rfl)
  rw [number?, Decimal.text, Mantissa.text, List.append_assoc, htake, hdrop, hsplit]
  simp only [if_neg hdigits, hexponent]
  rfl

theorem number?_sound (h : number? s = some x) : ∃ g : Decimal, s = g.text ∧ x = g.read := by
  have hwhole : ∀ c ∈ s.takeWhile isDigit, isDigit c = true := fun _ => List.mem_takeWhile_imp
  have hs := List.takeWhile_append_dropWhile (p := isDigit) (l := s)
  rw [number?] at h
  generalize s.takeWhile isDigit = whole, s.dropWhile isDigit = rest at *
  subst hs
  obtain ⟨places, rest', hplaces, hrest, hfraction⟩ : ∃ (places : Option (List Char)) (rest' : _),
      (∀ c ∈ places.getD [], isDigit c = true) ∧
        rest = places.elim [] ('.' :: ·) ++ rest' ∧ fraction rest = (places.getD [], rest') := by
    unfold fraction
    split
    · exact ⟨some _, _, fun _ => List.mem_takeWhile_imp,
        congrArg ('.' :: ·) List.takeWhile_append_dropWhile.symm, rfl⟩
    · exact ⟨none, rest, nofun, rfl, rfl⟩
  rw [hfraction] at h
  simp only [Option.ite_none_left_eq_some] at h
  obtain ⟨hne, h⟩ := h
  obtain ⟨e, he, rfl⟩ := Option.map_eq_some_iff.mp h
  obtain ⟨g, rfl, rfl⟩ := exponent?_sound he
  refine ⟨⟨⟨whole, places, hwhole, hplaces, fun h => hne (List.append_eq_nil_iff.mp h)⟩, g⟩, ?_, rfl⟩
  rw [hrest, ← List.append_assoc]
  rfl

/-- The texts of numbers without a sign are the decimal numerals of programs, and are read alike. -/
theorem number?_eq_some_iff : number? s = some x ↔ decimal s = some (x, []) := by
  constructor
  · intro h
    obtain ⟨g, rfl, rfl⟩ := number?_sound h
    have hdecimal := (covers_decimal g).stops (u := []) nofun
    rwa [List.append_nil] at hdecimal
  · intro h
    obtain ⟨g, hg, rfl⟩ := decimal_sound h
    rw [hg, List.append_nil]
    exact number?_text g

end SmallScript.Number.FloatText
