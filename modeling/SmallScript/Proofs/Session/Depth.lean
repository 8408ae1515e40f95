import SmallScript.Proofs.Eval.Depth
import SmallScript.Proofs.Session.Moments
import Mathlib

namespace SmallScript.Session

open Eval Discipline

variable {host : Host} {fuel : Nat} {g : FrameRef} {s : Session}

theorem counting_admits (s : Session) (program : Program) (hglobal : g = s.global) :
    s.Admits (counting g) program := by
  refine ⟨counting_good _, fun s' hs' hgrows _ => ⟨hglobal ▸ hs'.rooted.global_lt, ?_⟩⟩
  exact hgrows.depth

/-- After any texts, however they ended: the next one starts at a depth of zero; wherever it
evaluates a tree the depth is the number of calls in progress, is not above the limit, and is
restored; and a call is refused exactly if as many are in progress as the limit says, with nothing
done but the evaluation of callee and arguments. -/
theorem depth_counts_calls (fuel : Nat) (interactive : Bool) (earlier : List Entry)
    (source : String) (h : evalAll host fuel earlier (start interactive) = some s) :
    (∀ E program, runStatements E s.global program s.state =
        runBody E s.global program (entered s.global program s.state) ∧
      (entered s.global program s.state).depth = 0) ∧
    (∀ m, Fault.tooDeep.message m = "RangeError: Maximum call stack size exceeded") ∧
    ¬s.MeetsAt host fuel (miscounting host) source := by
  refine ⟨fun E program => ⟨rfl, rfl⟩, fun m => rfl, ?_⟩
  have hs : s.Kept (counting (start interactive).global) :=
    (start_kept interactive rfl).evalAll earlier (fun _ => trivial)
      (fun u _ _ program _ hu _ => counting_admits u program hu.global) h
  refine hs.not_meetsAt_of_related (fun A Q => ?_) fun program _ _ =>
    counting_admits s program hs.global
  refine ⟨watchedWithin host (miscounting host) A Q fuel, miscounting_related host _ A Q fuel, ?_⟩
  intro program
  exact watchedWithin_of_le (Nat.zero_le _)

/-- A function that calls itself until it is refused, in a text that fails of it and then in one that
goes on. -/
theorem depth_counts_calls_recursion :
    ∃ s, evalAll ⟨2, fun _ => none⟩ 20 ["function f() { f() }", "f()"] (start false) = some s ∧
      ¬s.MeetsAt ⟨2, fun _ => none⟩ 20 (miscounting ⟨2, fun _ => none⟩)
        "try { f() } catch (e) { f() } finally { }" := by
  have hsome : (evalAll ⟨2, fun _ => none⟩ 20 ["function f() { f() }", "f()"]
      (start false)).isSome = true := by cbv
  obtain ⟨s, hs⟩ := Option.isSome_iff_exists.mp hsome
  exact ⟨s, hs, (depth_counts_calls 20 false _ _ hs).2.2⟩

end SmallScript.Session
