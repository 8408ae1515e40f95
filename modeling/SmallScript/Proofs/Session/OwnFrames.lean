import SmallScript.Proofs.Eval.OwnFrames
import SmallScript.Proofs.Session.Hoisting
import Mathlib

namespace SmallScript

open Declares Eval Early

/-- Early errors keep the names of the head out of the body. -/
theorem ForLoop.proper_of_valid {l : ForLoop} (hnames : l.names ≠ [])
    (h : Early.Valid (.scope (.forLoop (some l.init) l.body))) : l.Proper := by
  refine ⟨hnames, fun x b b' hx hx' => ?_⟩
  obtain ⟨kind, ds, -, -, hdeclares⟩ := init_of_names hnames
  have hnodup := h.1.1
  rw [Scope.lexicalNames, filterMap_lexical_declsOf, Scope.forLoop, Scope.block, List.nil_append,
    Option.toList_some, declaredBy_append, List.map_append, List.nodup_append] at hnodup
  refine hnodup.2.2 x (List.mem_map.mpr ⟨(x, b), ?_, rfl⟩) x (List.mem_map.mpr ⟨(x, b'), ?_, rfl⟩) rfl
  · simpa [hdeclares] using hx
  · simpa using hx'

namespace Session

variable {host : Host} {fuel : Nat} {g : FrameRef} {s : Session}

/-- The moments at which a loop starts whose passes do not have their own frames. -/
def sharedFrames (host : Host) : Moments where
  expr _ _ _ _ _ := False
  stmt _ _ f t s := ∃ l : ForLoop, t = l.stmt ∧ l.names ≠ [] ∧ ∃ n, ¬OwnFrames host n l f s

theorem ownFrames_excludes (host : Host) (g : FrameRef) :
    (Discipline.scoping .lax g).Excludes host (sharedFrames host) where
  gains _ := trivial
  expr _ _ _ _ _ _ _ _ := id
  stmt n ctx p f t s ht hs hready := by
    rintro ⟨l, rfl, hnames, k, hshared⟩
    rw [ForLoop.stmt, stmtParts, Discipline.good_cons, Discipline.good_cons] at ht
    have hl := ForLoop.proper_of_valid hnames ht.2.1.1
    exact hshared (ownFrames host k hl hs.rooted hready.describes.lt)

/-- Whatever texts a session has taken, in the run of a further one every pass of a loop over `let`
or `const` names has a frame of its own. -/
theorem own_frames (fuel : Nat) (interactive : Bool) (earlier : List Entry) (source : String)
    (h : evalAll host fuel earlier (start interactive) = some s) :
    ¬s.MeetsAt host fuel (sharedFrames host) source := by
  have hs := evalAll_scoped earlier (start_scoped .lax interactive)
    (fun _ _ program _ _ _ _ => Care.lax_observed program) h
  exact hs.not_meetsAt (ownFrames_excludes host s.global)
    fun _ _ program _ _ _ _ => Care.lax_observed program

/-- A loop that keeps a function of every pass. -/
theorem own_frames_closures : ∃ s,
    evalAll ⟨8, fun _ => none⟩ 20 ["let a = []"] (start false) = some s ∧
      ¬s.MeetsAt ⟨8, fun _ => none⟩ 20 (sharedFrames ⟨8, fun _ => none⟩)
        "for (let i = 0; i < 3; i++) { a[i] = function () { return i++ }; continue }" := by
  have hsome : (evalAll ⟨8, fun _ => none⟩ 20 ["let a = []"] (start false)).isSome = true := by cbv
  obtain ⟨s, hs⟩ := Option.isSome_iff_exists.mp hsome
  exact ⟨s, hs, own_frames 20 false _ _ hs⟩

end Session

end SmallScript
