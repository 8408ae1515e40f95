import SmallScript.Proofs.Eval.FrameEffect
import SmallScript.Proofs.Session.Moments
import Mathlib

namespace SmallScript.Session

open Eval Discipline

variable {host : Host} {fuel : Nat} {g : FrameRef} {s t : Session}

theorem free_admits (s : Session) (program : Program)
    (hglobal : g = s.global) : s.Admits (free g fun _ => True) program := by
  refine ⟨free_good _, fun s' hs' _ _ => ?_⟩
  exact ⟨hglobal ▸ hs'.rooted.global_lt, trivial⟩

theorem evalAll_free (entries : List Entry) (hs : s.Kept (free g fun _ => True))
    (h : evalAll host fuel entries s = some t) : t.Kept (free g fun _ => True) :=
  hs.evalAll entries (fun _ => trivial)
    (fun u _ _ program _ hu _ => free_admits u program hu.global) h

/-- The moments in whose state some expression would have another effect on the frames. -/
def otherEffects (host : Host) (g : FrameRef) : Moments :=
  ⟨fun _ _ _ _ s => ¬FrameEffect host g s, fun _ _ _ _ s => ¬FrameEffect host g s⟩

theorem free_excludes (host : Host) (g : FrameRef) :
    (free g fun _ => True).Excludes host (otherEffects host g) where
  gains _ := trivial
  expr _ _ _ _ _ _ hs _ h := h (frameEffect_of_rooted host hs.rooted)
  stmt _ _ _ _ _ _ _ hs _ h := h (frameEffect_of_rooted host hs.rooted)

/-- Whatever texts a session has taken, evaluation has no other effect on the frames in its memory,
and none in any state that a further text comes to. -/
theorem frame_effect (fuel : Nat) (interactive : Bool) (earlier : List Entry) (source : String)
    (h : evalAll host fuel earlier (start interactive) = some s) :
    FrameEffect host s.global s.state ∧
      ¬s.MeetsAt host fuel (otherEffects host s.global) source := by
  have hs := evalAll_free earlier
    (start_kept (K := free (start interactive).global fun _ => True) interactive rfl) h
  have hglobal : (start interactive).global = s.global := hs.global
  rw [hglobal] at hs
  refine ⟨frameEffect_of_rooted host hs.holds.rooted,
    hs.not_meetsAt (free_excludes host s.global) fun program _ _ => ?_⟩
  exact free_admits s program rfl

/-- A text with an assignment in a function, to a name that the function does not bind. -/
theorem frame_effect_assign : ∃ s, evalAll ⟨8, fun _ => none⟩ 20 ["let a = function () { b = true }"]
      (start false) = some s ∧ FrameEffect ⟨8, fun _ => none⟩ s.global s.state ∧
    ¬s.MeetsAt ⟨8, fun _ => none⟩ 20 (otherEffects ⟨8, fun _ => none⟩ s.global) "a()" := by
  have hsome : (evalAll ⟨8, fun _ => none⟩ 20 ["let a = function () { b = true }"]
      (start false)).isSome = true := by cbv
  obtain ⟨s, hs⟩ := Option.isSome_iff_exists.mp hsome
  exact ⟨s, hs, frame_effect 20 false _ "a()" hs⟩

end SmallScript.Session
