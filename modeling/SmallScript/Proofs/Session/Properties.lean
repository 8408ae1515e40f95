import SmallScript.Proofs.Eval.Invariant
import SmallScript.Proofs.Session.Moments
import Mathlib

namespace SmallScript

namespace Memory.Invariant

open Eval Session

variable {I : Memory → Prop} {host : Host} {fuel : Nat} {source : String} {s t : Session}

theorem declareAll (hI : Memory.Invariant I) {m : Memory} (hm : I m) (f : FrameRef)
    (bindings : List (String × Value)) (isMutable : Bool) :
    I (m.declareAll f bindings isMutable) := by
  rw [Memory.declareAll]
  induction bindings generalizing m with
  | nil => exact hm
  | cons b bindings ih => exact ih (hI.frames _ hm)

theorem start (hI : Memory.Invariant I) (hempty : I Memory.empty) (interactive : Bool) :
    I (Session.start interactive).state.memory :=
  hI.declareAll (hI.declareAll (hI.frames _ hempty) _ _ true) _ _ false

theorem eval (hI : Memory.Invariant I) (hs : I s.state.memory)
    (h : (s.eval host fuel source).state? = some t) : I t.state.memory := by
  rw [Session.eval] at h
  cases hp : Program.parse source with
  | error e =>
      rw [evalWith_unparsed hp] at h
      cases h
      exact hs
  | ok program =>
      cases hb : Early.analyze program s.analyzer with
      | error e b =>
          rw [evalWith_refused hp hb] at h
          cases h
          exact hs
      | ok u b =>
          rw [evalWith_accepted hp hb, Outcome.state?_mapState, Option.map_eq_some_iff] at h
          obtain ⟨state, hstate, rfl⟩ := h
          have hrun := (alikes_self hI host fuel).runAccepted hI host s.global s.interactive
            program s.state hs
          exact hrun.2 state hstate

theorem evalAll (hI : Memory.Invariant I) (entries : List Session.Entry) (hs : I s.state.memory)
    (h : Session.evalAll host fuel entries s = some t) : I t.state.memory := by
  induction entries generalizing s with
  | nil => exact Option.some.inj h ▸ hs
  | cons e entries ih =>
      obtain ⟨u, hu, ht⟩ := Option.bind_eq_some_iff.mp h
      cases e with
      | text r => exact ih (hI.eval hs hu) ht
      | echo isOn =>
          cases hu
          exact ih (s := s.setInteractive isOn) hs ht

theorem not_meetsAt (hI : Memory.Invariant I) (hs : I s.state.memory) :
    ¬s.MeetsAt host fuel (failing I) source := by
  rintro ⟨program, A, Q, hp, hne⟩
  cases hb : Early.analyze program s.analyzer with
  | error e b => exact hne (by rw [evalWith_refused hp hb, evalWith_refused hp hb])
  | ok u b =>
      have hrun := (alikes_watched hI host A Q fuel (s.context program)).runAccepted hI host
        s.global s.interactive program s.state hs
      exact hne (by rw [evalWith_accepted hp hb, evalWith_accepted hp hb, hrun.1])

end Memory.Invariant

def Memory.KeysDistinct (m : Memory) : Prop :=
  ∀ object ∈ m.objects, object.properties.keys.Nodup

theorem Memory.invariant_keysDistinct : Memory.Invariant Memory.KeysDistinct where
  frames _ hm := hm
  closures _ hm := hm
  newArray _ hm := hm
  newObject hm := by
    intro object hobject
    rcases Array.mem_push.mp hobject with hobject | rfl
    · exact hm object hobject
    · exact List.nodup_nil
  newError name message hm := by
    intro object hobject
    rcases Array.mem_push.mp hobject with hobject | rfl
    · exact hm object hobject
    · simp [Table.keys]
  write := fun {m} v p hm => by
    cases p with
    | property o key =>
        intro object hobject
        obtain ⟨i, hi, rfl⟩ := Array.mem_iff_getElem.mp hobject
        have hsize : i < m.objects.size := by
          simpa [Memory.write, Memory.modifyObject] using hi
        simp only [Memory.write, Memory.modifyObject, Array.getElem_modify]
        split
        · exact Table.nodup_keys_set (hm _ (Array.getElem_mem hsize)) key v
        · exact hm _ (Array.getElem_mem hsize)
    | _ => exact hm

namespace Session

open Eval Effect

variable {host : Host} {s : Session}

/-- Whatever texts a session has taken, no object has a key twice, neither then nor while a further
text runs. An object answers each key with the value that was written to it last, and has its keys
in the order of the first writes; and a literal is an empty object to which its values are written
in turn. -/
theorem properties_as_written (fuel : Nat) (interactive : Bool) (earlier : List Entry)
    (h : evalAll host fuel earlier (start interactive) = some s) :
    s.state.memory.KeysDistinct ∧
      (∀ fuel source, ¬s.MeetsAt host fuel (failing Memory.KeysDistinct) source) ∧
      (∀ (m : Memory) (o : ObjectRef) (writes : List PropertyWrite), o < m.objects.size →
        let old := (m.objectAt o).properties
        let entries := writes.filterMap (·.keyValue? o)
        (∀ key, (m.writeAll writes).getProperty (.object o) key =
          .ok (((Table.last? entries key).or (old.get? key)).getD .undefined)) ∧
        ((m.writeAll writes).objectAt o).properties.keys =
          old.keys ++ ((entries.map Prod.fst).filter (· ∉ old.keys)).eraseDups) ∧
      ∀ (E : Evaluator) (f : FrameRef) (properties : List (String × Expr)),
        evalExpr host E f (.object properties) = do
          let vs ← evalList E f (properties.map Prod.snd)
          let o ← newObject []
          setProperties o ((properties.map Prod.fst).zip vs)
          return o := by
  have hdistinct : s.state.memory.KeysDistinct :=
    Memory.invariant_keysDistinct.evalAll earlier
      (Memory.invariant_keysDistinct.start (by simp [Memory.KeysDistinct, Memory.empty]) interactive)
      h
  refine ⟨hdistinct, fun fuel source => Memory.invariant_keysDistinct.not_meetsAt hdistinct, ?_,
    evalExpr_object host⟩
  intro m o writes ho old entries
  have hobject := m.objectAt_writeAll ho writes
  refine ⟨fun key => ?_, ?_⟩
  · rw [Memory.getProperty, hobject, Table.get?_setAll]
  · rw [hobject, Table.keys_setAll]

/-- A literal with a key twice, and a write of the key a third time under another name of the object. -/
theorem properties_as_written_duplicate : ∃ s,
    evalAll ⟨8, fun _ => none⟩ 20
        ["let a = {x: true, x: null}; let b = a", "b.x = a"]
        (start false) = some s ∧
      s.state.memory.KeysDistinct ∧
      ∀ fuel source, ¬s.MeetsAt ⟨8, fun _ => none⟩ fuel (failing Memory.KeysDistinct) source := by
  have hsome : (evalAll ⟨8, fun _ => none⟩ 20
      ["let a = {x: true, x: null}; let b = a", "b.x = a"]
      (start false)).isSome = true := by cbv
  obtain ⟨s, hs⟩ := Option.isSome_iff_exists.mp hsome
  obtain ⟨hdistinct, hnever, -⟩ := properties_as_written 20 false _ hs
  exact ⟨s, hs, hdistinct, hnever⟩

end Session

end SmallScript
