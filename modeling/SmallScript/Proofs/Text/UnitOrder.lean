import SmallScript.Text.Units
import Mathlib

namespace SmallScript.Text.Units

variable {s t : String}

theorem compareUnits_eq_compare (us vs : List Nat) :
    compare.compareUnits us vs = Ord.compare us vs := by
  induction us generalizing vs with
  | nil => cases vs <;> rfl
  | cons u us ih =>
      cases vs with
      | nil => rfl
      | cons v vs =>
          rw [compare.compareUnits, ih, List.compare_cons_cons, Nat.compare_eq_ite_lt]
          split_ifs <;> rfl

theorem compareUnits_append (ps us vs : List Nat) :
    compare.compareUnits (ps ++ us) (ps ++ vs) = compare.compareUnits us vs := by
  induction ps with
  | nil => rfl
  | cons p ps ih =>
      simp only [List.cons_append, compare.compareUnits, Nat.lt_irrefl, if_false, ih]

theorem compare_eq (s t : String) : compare s t = Ord.compare (ofString s) (ofString t) :=
  compareUnits_eq_compare _ _

theorem ofString_injective : Function.Injective ofString := fun _ _ h =>
  String.toList_injective (Function.LeftInverse.injective decode_encode h)

theorem compare_eq_eq_iff : compare s t = .eq ↔ s = t := by
  rw [compare_eq, Std.compare_eq_iff_eq, ofString_injective.eq_iff]

theorem compare_swap (s t : String) : compare t s = (compare s t).swap := by
  rw [compare_eq, compare_eq, Std.OrientedOrd.eq_swap]

theorem compare_lt_trans {u : String} (hst : compare s t = .lt) (htu : compare t u = .lt) :
    compare s u = .lt := by
  rw [compare_eq] at *
  exact Std.TransCmp.lt_trans hst htu

theorem compare_append (p s t : String) : compare (p ++ s) (p ++ t) = compare s t := by
  simp only [compare, ofString, String.toList_append, encode, List.flatMap_append,
    compareUnits_append]

end SmallScript.Text.Units
