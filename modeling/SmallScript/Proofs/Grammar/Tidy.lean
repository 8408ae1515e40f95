import SmallScript.Proofs.Grammar.Backward
import SmallScript.Proofs.Lexical.Tidy
import Mathlib

namespace SmallScript.Grammar

open Lexical Scan

theorem tidy_backward : Backward Tidy where
  plain {d c r} hc hslash ho hclose hq h := by
    rw [Tidy, tidyFrom_cons hc, if_neg hslash, ho, hclose, behind_of_not_isQuote hq]
    exact h
  opening {d c r} ho h := by
    obtain ⟨-, -, -, hcomment⟩ := kinds_of_isOpening ho
    rw [Tidy, tidyFrom_cons (.of_ne hcomment r), if_neg (by rintro rfl; cases ho), if_pos ho]
    exact h
  closing {d c r} hclose h := by
    obtain ⟨-, ho, -, hcomment⟩ := kinds_of_isClosing hclose
    rw [Tidy, tidyFrom_cons (.of_ne hcomment r), if_neg (by rintro rfl; cases hclose), ho,
      if_neg Bool.false_ne_true, if_pos hclose]
    exact h
  content {d q r} hq h := by
    refine content_of_tidyFrom (d := d) hq (fun u hu => ⟨rfl, hu⟩) ?_
    rw [← Bool.not_eq_true]
    rcases hq with rfl | rfl <;> exact h
  block hr h := tidy_block.mpr ⟨_, hr, h⟩
  skip across h := (tidy_skip across _).mp h

theorem tidy_of_ofChars? {s : List Char} {t : Program} (h : Program.ofChars? s = .ok t) :
    Tidy 0 s := by
  obtain ⟨r, hr, hend⟩ := ofChars?_eq_ok.mp h
  have hgap : Tidy 0 (Lexical.skip true r) := by
    rw [show Lexical.skip true r = [] from hend]
    exact tidy_nil.mpr rfl
  exact Backward.of_follows (fun n => (tidy_backward.follow n).stmts 0 (Backward.firm 0)) hr
    ((tidy_skip true r).mp hgap)

end SmallScript.Grammar
