import SmallScript.Eval.Expression
import SmallScript.Proofs.Early.Nesting
import SmallScript.Proofs.Memory.Growth
import Mathlib

namespace SmallScript

open Declares

namespace Memory

variable {m : Memory} {d : Declares} {f g i : FrameRef} {x : String}

def declareVars (m : Memory) (f : FrameRef) (xs : List String) : Memory :=
  xs.foldl (fun m x => m.declareVar f x) m

theorem varFrame_of_isBoundary (h : (m.frameAt f).isBoundary = true) : m.varFrame f = f := by
  simp [varFrame, chainFuel, nearest?, h]

theorem declareVar_of_isBoundary (h : (m.frameAt f).isBoundary = true) (x : String) :
    m.declareVar f x =
      if m.isDeclaredHere f x then m else m.declare f x .undefined true := by
  rw [declareVar, varFrame_of_isBoundary h]

theorem isBoundary_declareVar (hf : f < m.frames.size) (h : (m.frameAt f).isBoundary = true)
    (x : String) : f < (m.declareVar f x).frames.size ∧
      ((m.declareVar f x).frameAt f).isBoundary = true := by
  rw [declareVar_of_isBoundary h]
  split
  · exact ⟨hf, h⟩
  · exact ⟨by simpa using hf, by rw [(frameAt_declare hf true f).2, h]⟩

theorem bindingAt?_declareVars (hf : f < m.frames.size) (h : (m.frameAt f).isBoundary = true)
    (xs : List String) (i : FrameRef) (x : String) :
    (m.declareVars f xs).bindingAt? i x =
      if i = f ∧ x ∈ xs ∧ m.isDeclaredHere f x = false then some ⟨.undefined, true⟩
      else m.bindingAt? i x := by
  induction xs generalizing m with
  | nil => simp [declareVars]
  | cons y xs ih =>
      obtain ⟨hf', h'⟩ := isBoundary_declareVar hf h y
      have hstep := ih hf' h'
      rw [declareVars] at hstep
      rw [declareVars, List.foldl_cons, hstep, declareVar_of_isBoundary h]
      cases hy : m.isDeclaredHere f y with
      | true =>
          simp only [if_true, List.mem_cons]
          by_cases hxy : x = y
          · subst hxy
            simp [hy]
          · simp [hxy]
      | false =>
          simp only [Bool.false_eq_true, if_false, isDeclaredHere_eq_false,
            bindingAt?_declare hf, List.mem_cons]
          rw [isDeclaredHere_eq_false] at hy
          by_cases hi : i = f <;> by_cases hxy : x = y <;> simp_all

theorem frameAt_declareVars (hf : f < m.frames.size) (h : (m.frameAt f).isBoundary = true)
    (xs : List String) :
    (m.declareVars f xs).frames.size = m.frames.size ∧
      (m.declareVars f xs).closures = m.closures ∧
      ∀ i, ((m.declareVars f xs).frameAt i).parent = (m.frameAt i).parent ∧
        ((m.declareVars f xs).frameAt i).isBoundary = (m.frameAt i).isBoundary := by
  induction xs generalizing m with
  | nil => exact ⟨rfl, rfl, fun _ => ⟨rfl, rfl⟩⟩
  | cons y xs ih =>
      obtain ⟨hf', h'⟩ := isBoundary_declareVar hf h y
      obtain ⟨hsize, hclosures, hframe⟩ := ih hf' h'
      rw [declareVars, List.foldl_cons, ← declareVars, hsize, hclosures]
      refine ⟨?_, m.closures_declareVar f y, fun i => ?_⟩
      · rw [declareVar_of_isBoundary h]
        split <;> simp
      · rw [(hframe i).1, (hframe i).2, declareVar_of_isBoundary h]
        split
        · exact ⟨rfl, rfl⟩
        · exact frameAt_declare hf true i

theorem isDeclaredHere_declareVars (hf : f < m.frames.size)
    (h : (m.frameAt f).isBoundary = true) {xs : List String} (hx : x ∈ xs) :
    (m.declareVars f xs).isDeclaredHere f x = true := by
  rw [isDeclaredHere_iff, bindingAt?_declareVars hf h]
  cases hdeclared : m.isDeclaredHere f x with
  | true => simpa [hdeclared] using isDeclaredHere_iff.mp hdeclared
  | false => exact ⟨_, if_pos ⟨rfl, hx, rfl⟩⟩

theorem grows_declareVars (hf : f < m.frames.size) (h : (m.frameAt f).isBoundary = true)
    {xs : List String} (hd : ∀ x ∈ xs, (m.frameAt f).parent = none ∨ d f x true) :
    m.Grows d (m.declareVars f xs) := by
  obtain ⟨hsize, -, hframe⟩ := frameAt_declareVars hf h xs
  refine ⟨by rw [hsize], fun i _ => (hframe i).1, fun i _ => (hframe i).2, ?_⟩
  intro i _ x
  rw [bindingAt?_declareVars hf h]
  split
  · rename_i hx
    obtain ⟨rfl, hmem, hunbound⟩ := hx
    rcases hd x hmem with hglobal | hdeclares
    · rw [isDeclaredHere_eq_false.mp hunbound]
      exact .gained _ hglobal
    · exact .declared _ _ _ hdeclares
  · exact .same _

theorem Rooted.declareVars (hm : m.Rooted g) (hf : f < m.frames.size)
    (h : (m.frameAt f).isBoundary = true) (xs : List String) : (m.declareVars f xs).Rooted g := by
  obtain ⟨hsize, hclosures, hframe⟩ := frameAt_declareVars hf h xs
  exact hm.of_same hsize (fun i => (hframe i).1) hclosures

end Memory

namespace Eval

theorem hoistVars_apply (f : FrameRef) (body : List Stmt) (s : State) :
    hoistVars f body s =
      .done () { s with memory := s.memory.declareVars f (varNames.varNamesOf body) } :=
  rfl

theorem hoistFunctions_function (f : FrameRef) (x : String) (params : List String)
    (inner body : List Stmt) (s : State) :
    ∃ (s₁ : State) (m : Memory) (c : ClosureRef),
      hoistFunctions f (.function (.mk (some x) params inner) :: body) s =
        hoistFunctions f body s₁ ∧
      s₁.memory = m.declare f x (.closure c) true ∧ m.frames = s.memory.frames :=
  ⟨⟨_, s.output, s.writes, s.depth⟩, (s.memory.newClosure (.mk (some x) params inner) f).2, _,
    rfl, rfl, rfl⟩

/-- Hoisting binds the names of the functions to them, and touches no other name. -/
theorem hoistFunctions_done {f : FrameRef} (body : List Stmt) {s : State}
    (hf : f < s.memory.frames.size) :
    ∃ s', hoistFunctions f body s = .done () s' ∧
      (∀ x ∉ hoisted body, s'.memory.bindingAt? f x = s.memory.bindingAt? f x) ∧
      ∀ x ∈ hoisted body, ∃ c, s'.memory.bindingAt? f x = some ⟨.closure c, true⟩ := by
  induction body generalizing s with
  | nil => exact ⟨s, rfl, fun _ _ => rfl, fun x hx => by cases hx⟩
  | cons t body ih =>
      cases t with
      | function definition =>
          obtain ⟨name, params, inner⟩ := definition
          cases name with
          | none => exact ih hf
          | some y =>
              obtain ⟨s₁, m, c, hstep, hmemory, hframes⟩ :=
                hoistFunctions_function f y params inner body s
              have hm : f < m.frames.size := hframes ▸ hf
              obtain ⟨s', hs', hkeeps, hbinds⟩ := ih (s := s₁)
                (by rw [hmemory, Memory.size_declare]; exact hm)
              refine ⟨s', hstep.trans hs', fun x hx => ?_, fun x hx => ?_⟩
              · rw [hoisted, List.mem_append, not_or] at hx
                have hne : x ≠ y := fun h => hx.1 (h ▸ List.mem_cons_self ..)
                rw [hkeeps x hx.2, hmemory, Memory.bindingAt?_declare hm, if_neg fun h => hne h.2,
                  Memory.bindingAt?, Memory.bindingAt?, Memory.frameAt, Memory.frameAt, hframes]
              · by_cases hlater : x ∈ hoisted body
                · exact hbinds x hlater
                · have hxy : x = y := by simpa [hoisted, hlater, Function.name, eq_comm] using hx
                  refine ⟨c, ?_⟩
                  rw [hkeeps x hlater, hmemory, Memory.bindingAt?_declare hm, if_pos ⟨rfl, hxy⟩]
      | _ => exact ih hf

end Eval

end SmallScript
