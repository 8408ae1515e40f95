import SmallScript.Early
import SmallScript.Eval.Expression
import SmallScript.Proofs.Parts
import Mathlib.Tactic.Tauto

namespace SmallScript.Early

inductive Decl where
  | lexical (x : String)
  | var (x : String)
  | function (x : String)
  deriving DecidableEq

namespace Decl

def isVar : Decl → Bool
  | var _ => true
  | _ => false

def lexical? : Decl → Option String
  | lexical x => some x
  | _ => none

def var? : Decl → Option String
  | var x => some x
  | _ => none

def function? : Decl → Option String
  | function x => some x
  | _ => none

/-- Whether two declarations may stand in one scope. -/
def Compatible (isBoundary : Bool) : Decl → Decl → Prop
  | lexical x, lexical y | lexical x, var y | var x, lexical y => x ≠ y
  | lexical x, function y | function x, lexical y => x ≠ y
  | var x, function y | function x, var y => isBoundary = true ∨ x ≠ y
  | var _, var _ | function _, function _ => True

end Decl

/-- The declarations of a statement in the scope in which it stands: its own ones, and of scopes
inside it the `var` ones. -/
def decls : Stmt → List Decl
  | .decl .var ds => ds.map fun d => .var d.1
  | .decl .letDecl ds => ds.map fun d => .lexical d.1
  | .decl .constDecl ds => ds.map fun d => .lexical d.1
  | .function f => f.name.toList.map .function
  | .ifElse _ t none => decls t
  | .ifElse _ t (some f) => decls t ++ decls f
  | .whileLoop _ body => decls body
  | .doWhile body _ => decls body
  | .forLoop none _ _ body => (decls body).filter Decl.isVar
  | .forLoop (some init) _ _ body => (decls init ++ decls body).filter Decl.isVar
  | .block body => (declsOf body).filter Decl.isVar
  | .tryCatch body handler finalizer =>
    (declsOf body).filter Decl.isVar
      ++ (match handler with
        | some (_, body) => (declsOf body).filter Decl.isVar
        | none => [])
      ++ (match finalizer with
        | some body => (declsOf body).filter Decl.isVar
        | none => [])
  | _ => []
where
  declsOf : List Stmt → List Decl
    | [] => []
    | t :: ts => decls t ++ declsOf ts

theorem declsOf_eq_flatMap (ts : List Stmt) : decls.declsOf ts = ts.flatMap decls := by
  induction ts with
  | nil => rfl
  | cons t ts ih => rw [decls.declsOf, ih, List.flatMap_cons]

theorem declsOf_append (ts us : List Stmt) :
    decls.declsOf (ts ++ us) = decls.declsOf ts ++ decls.declsOf us := by
  rw [declsOf_eq_flatMap, declsOf_eq_flatMap, declsOf_eq_flatMap, List.flatMap_append]

namespace Names

def Admits (s : Names) : Decl → Prop
  | .lexical x => x ∉ s.lexical ∧ x ∉ s.vars ∧ x ∉ s.functions
  | .var x => x ∉ s.lexical ∧ (s.isBoundary = true ∨ x ∉ s.functions)
  | .function x => x ∉ s.lexical ∧ (s.isBoundary = true ∨ x ∉ s.vars)

instance (s : Names) (d : Decl) : Decidable (s.Admits d) := by
  cases d <;> unfold Admits <;> infer_instance

def add (s : Names) : Decl → Names
  | .lexical x => { s with lexical := x :: s.lexical }
  | .var x => { s with vars := x :: s.vars }
  | .function x =>
    if s.isBoundary then { s with vars := x :: s.vars }
    else { s with functions := x :: s.functions }

def AdmitsAll : Names → List Decl → Prop
  | _, [] => True
  | s, d :: ds => s.Admits d ∧ (s.add d).AdmitsAll ds

def addAll (s : Names) (ds : List Decl) : Names := ds.foldl add s

@[simp] theorem add_isBoundary (s : Names) (d : Decl) : (s.add d).isBoundary = s.isBoundary := by
  cases d <;> simp only [add]
  split <;> rfl

theorem functions_add (s : Names) (hs : s.isBoundary = true) (d : Decl) :
    (s.add d).functions = s.functions := by
  cases d <;> simp [add, hs]

theorem admits_add (s : Names) (hs : s.isBoundary = true → s.functions = []) (d e : Decl) :
    (s.add d).Admits e ↔ s.Admits e ∧ d.Compatible s.isBoundary e := by
  cases hb : s.isBoundary with
  | true =>
      cases d <;> cases e <;> simp [add, Admits, Decl.Compatible, hb, hs hb, eq_comm] <;> tauto
  | false =>
      cases d <;> cases e <;> simp [add, Admits, Decl.Compatible, hb, eq_comm] <;> tauto

/-- The order is gone: every declaration fits the scope, and any two fit each other. -/
theorem admitsAll_iff (s : Names) (hs : s.isBoundary = true → s.functions = []) (ds : List Decl) :
    s.AdmitsAll ds ↔ (∀ d ∈ ds, s.Admits d) ∧ ds.Pairwise (Decl.Compatible s.isBoundary) := by
  induction ds generalizing s with
  | nil => simp [AdmitsAll]
  | cons d ds ih =>
      have hadd : (s.add d).isBoundary = true → (s.add d).functions = [] := by
        intro hb
        rw [add_isBoundary] at hb
        rw [functions_add s hb, hs hb]
      rw [AdmitsAll, ih _ hadd]
      simp only [admits_add s hs, add_isBoundary, List.forall_mem_cons, List.pairwise_cons,
        forall_and]
      tauto

theorem admitsAll_congr {s t : Names} (hb : s.isBoundary = t.isBoundary)
    (hs : s.isBoundary = true → s.functions = []) (hl : ∀ x, x ∈ s.lexical ↔ x ∈ t.lexical)
    (hv : ∀ x, x ∈ s.vars ↔ x ∈ t.vars) (hf : s.functions = t.functions) (ds : List Decl) :
    s.AdmitsAll ds ↔ t.AdmitsAll ds := by
  have hadmits (d : Decl) : s.Admits d ↔ t.Admits d := by
    cases d <;> simp [Admits, hl, hv, hf, hb]
  rw [admitsAll_iff s hs, admitsAll_iff t (by rwa [← hb, ← hf]), hb]
  simp only [hadmits]

@[simp] theorem addAll_isBoundary (s : Names) (ds : List Decl) :
    (s.addAll ds).isBoundary = s.isBoundary := by
  induction ds generalizing s with
  | nil => rfl
  | cons d ds ih => exact (ih _).trans (s.add_isBoundary d)

theorem functions_addAll (s : Names) (hs : s.isBoundary = true) (ds : List Decl) :
    (s.addAll ds).functions = s.functions := by
  induction ds generalizing s with
  | nil => rfl
  | cons d ds ih => exact (ih _ (by rw [add_isBoundary, hs])).trans (functions_add s hs d)

theorem mem_lexical_addAll (s : Names) (ds : List Decl) (x : String) :
    x ∈ (s.addAll ds).lexical ↔ x ∈ s.lexical ∨ .lexical x ∈ ds := by
  induction ds generalizing s with
  | nil => simp [addAll]
  | cons d ds ih =>
      have hd : x ∈ (s.add d).lexical ↔ x ∈ s.lexical ∨ d = .lexical x := by
        cases d with
        | lexical y => simp [add, eq_comm, or_comm]
        | var y => simp [add]
        | function y =>
            simp only [add, reduceCtorEq, or_false]
            split <;> rfl
      rw [addAll, List.foldl_cons, ← addAll, ih, hd, List.mem_cons, or_assoc, eq_comm]

theorem mem_vars_addAll (s : Names) (hs : s.isBoundary = true) (ds : List Decl) (x : String) :
    x ∈ (s.addAll ds).vars ↔ x ∈ s.vars ∨ .var x ∈ ds ∨ .function x ∈ ds := by
  induction ds generalizing s with
  | nil => simp [addAll]
  | cons d ds ih =>
      have hd : x ∈ (s.add d).vars ↔ x ∈ s.vars ∨ d = .var x ∨ d = .function x := by
        cases d <;> simp [add, hs, eq_comm, or_comm]
      rw [addAll, List.foldl_cons, ← addAll, ih _ (by rw [add_isBoundary, hs]), hd, List.mem_cons,
        List.mem_cons, @eq_comm _ (Decl.var x), @eq_comm _ (Decl.function x)]
      tauto

theorem admitsAll_append (s : Names) (ds es : List Decl) :
    s.AdmitsAll (ds ++ es) ↔ s.AdmitsAll ds ∧ (s.addAll ds).AdmitsAll es := by
  induction ds generalizing s with
  | nil => simp [AdmitsAll, addAll]
  | cons d ds ih => rw [List.cons_append, AdmitsAll, ih, AdmitsAll, and_assoc]; rfl

theorem addAll_append (s : Names) (ds es : List Decl) :
    s.addAll (ds ++ es) = (s.addAll ds).addAll es :=
  List.foldl_append

end Names

/-- The scopes after a declaration, if they accept it. A `var` passes through to the boundary. -/
def record (d : Decl) : List Names → Option (List Names)
  | [] => if d.isVar then some [] else none
  | s :: outer =>
    if s.Admits d then
      if s.isBoundary = true ∨ d.isVar = false then some (s.add d :: outer)
      else (record d outer).map (s.add d :: ·)
    else none

def recordAll : List Decl → List Names → Option (List Names)
  | [], scopes => some scopes
  | d :: ds, scopes => (record d scopes).bind (recordAll ds)

theorem record_ne_nil {d : Decl} {scopes after : List Names} (h : record d scopes = some after)
    (hs : scopes ≠ []) : after ≠ [] := by
  cases scopes with
  | nil => exact absurd rfl hs
  | cons s outer =>
      simp only [record] at h
      split at h
      · split at h
        · cases h
          exact List.cons_ne_nil _ _
        · obtain ⟨_, -, rfl⟩ := Option.map_eq_some_iff.mp h
          exact List.cons_ne_nil _ _
      · cases h

theorem recordAll_ne_nil {ds : List Decl} {scopes after : List Names}
    (h : recordAll ds scopes = some after) (hs : scopes ≠ []) : after ≠ [] := by
  induction ds generalizing scopes with
  | nil =>
      cases h
      exact hs
  | cons d ds ih =>
      obtain ⟨_, hd, h⟩ := Option.bind_eq_some_iff.mp h
      exact ih h (record_ne_nil hd hs)

theorem recordAll_append (ds es : List Decl) (scopes : List Names) :
    recordAll (ds ++ es) scopes = (recordAll ds scopes).bind (recordAll es) := by
  induction ds generalizing scopes with
  | nil => rfl
  | cons d ds ih =>
      simp only [List.cons_append, recordAll]
      cases record d scopes with
      | none => rfl
      | some scopes => exact ih scopes

theorem recordAll_boundary (s : Names) (hs : s.isBoundary = true) (outer : List Names)
    (ds : List Decl) (scopes : List Names) :
    recordAll ds (s :: outer) = some scopes ↔ s.AdmitsAll ds ∧ s.addAll ds :: outer = scopes := by
  induction ds generalizing s with
  | nil => simp [recordAll, Names.AdmitsAll, Names.addAll]
  | cons d ds ih =>
      have hadd : (s.add d).isBoundary = true := by rw [Names.add_isBoundary, hs]
      by_cases hd : s.Admits d
      · simpa [recordAll, record, hs, hd, Names.AdmitsAll, Names.addAll] using ih _ hadd
      · simp [recordAll, record, hd, Names.AdmitsAll]

/-- Of the declarations in any other scope the `var` ones go on to the scopes around it. -/
theorem recordAll_inner (s : Names) (hs : s.isBoundary = false) (outer : List Names)
    (ds : List Decl) (scopes : List Names) :
    recordAll ds (s :: outer) = some scopes ↔
      s.AdmitsAll ds ∧
        ∃ outer', recordAll (ds.filter Decl.isVar) outer = some outer' ∧
          s.addAll ds :: outer' = scopes := by
  induction ds generalizing s outer with
  | nil => simp [recordAll, Names.AdmitsAll, Names.addAll]
  | cons d ds ih =>
      have hadd : (s.add d).isBoundary = false := by rw [Names.add_isBoundary, hs]
      by_cases hd : s.Admits d
      · cases hv : d.isVar with
        | false =>
            simpa [recordAll, record, hs, hd, hv, Names.AdmitsAll, Names.addAll] using
              ih _ hadd outer
        | true =>
            cases ho : record d outer with
            | none => simp [recordAll, record, hs, hd, hv, ho]
            | some outer' =>
                simpa [recordAll, record, hs, hd, hv, ho, Names.AdmitsAll, Names.addAll] using
                  ih _ hadd outer'
      · simp [recordAll, record, hd, Names.AdmitsAll]

end SmallScript.Early

namespace SmallScript.Scope

open Early

def lexicalNames (s : Scope) : List String :=
  s.lexical ++ (decls.declsOf s.body).filterMap Decl.lexical?

def functionNames (s : Scope) : List String :=
  (decls.declsOf s.body).filterMap Decl.function?

def varNames (s : Scope) : List String := Eval.varNames.varNamesOf s.body

/-- No `let` or `const` name has a second declaration in the scope. -/
def Distinct (s : Scope) : Prop :=
  s.lexicalNames.Nodup ∧
    ∀ x ∈ s.lexicalNames, x ∉ s.params ∧ x ∉ s.functionNames ∧ x ∉ s.varNames

/-- Outside function bodies no function shares its name with a `var`. -/
def Apart (s : Scope) : Prop :=
  s.isFunction = false → ∀ x ∈ s.functionNames, x ∉ s.varNames

def start (s : Scope) : Names := ⟨s.lexical, s.params, [], s.isFunction⟩

structure Proper (s : Scope) : Prop where
  nodup : s.lexical.Nodup
  apart : ∀ x ∈ s.lexical, x ∉ s.params
  params : s.isFunction = false → s.params = []

end SmallScript.Scope

namespace SmallScript.Early

@[simp] theorem mem_filterMap_lexical (ds : List Decl) (x : String) :
    x ∈ ds.filterMap Decl.lexical? ↔ .lexical x ∈ ds := by
  rw [List.mem_filterMap]
  refine ⟨?_, fun h => ⟨_, h, rfl⟩⟩
  rintro ⟨_ | _ | _, hd, hx⟩ <;> cases hx
  exact hd

@[simp] theorem mem_filterMap_function (ds : List Decl) (x : String) :
    x ∈ ds.filterMap Decl.function? ↔ .function x ∈ ds := by
  rw [List.mem_filterMap]
  refine ⟨?_, fun h => ⟨_, h, rfl⟩⟩
  rintro ⟨_ | _ | _, hd, hx⟩ <;> cases hx
  exact hd

@[simp] theorem mem_filterMap_var (ds : List Decl) (x : String) :
    x ∈ ds.filterMap Decl.var? ↔ .var x ∈ ds := by
  rw [List.mem_filterMap]
  refine ⟨?_, fun h => ⟨_, h, rfl⟩⟩
  rintro ⟨_ | _ | _, hd, hx⟩ <;> cases hx
  exact hd

theorem compatible_lexical_iff (b : Bool) (x : String) (ds : List Decl) :
    (∀ d ∈ ds, (Decl.lexical x).Compatible b d) ↔
      .lexical x ∉ ds ∧ .function x ∉ ds ∧ .var x ∉ ds := by
  constructor
  · intro h
    exact ⟨fun hx => h _ hx rfl, fun hx => h _ hx rfl, fun hx => h _ hx rfl⟩
  · rintro ⟨hl, hf, hv⟩ (y | y | y) hy rfl <;> contradiction

theorem compatible_var_iff (b : Bool) (x : String) (ds : List Decl) :
    (∀ d ∈ ds, (Decl.var x).Compatible b d) ↔
      .lexical x ∉ ds ∧ (b = false → .function x ∉ ds) := by
  constructor
  · intro h
    refine ⟨fun hx => h _ hx rfl, fun hb hx => ?_⟩
    simpa [Decl.Compatible, hb] using h _ hx
  · rintro ⟨hl, hf⟩ (y | y | y) hy
    · rintro rfl
      contradiction
    · trivial
    · cases b with
      | true => exact .inl rfl
      | false =>
          right
          rintro rfl
          exact hf rfl hy

theorem compatible_function_iff (b : Bool) (x : String) (ds : List Decl) :
    (∀ d ∈ ds, (Decl.function x).Compatible b d) ↔
      .lexical x ∉ ds ∧ (b = false → .var x ∉ ds) := by
  constructor
  · intro h
    refine ⟨fun hx => h _ hx rfl, fun hb hx => ?_⟩
    simpa [Decl.Compatible, hb] using h _ hx
  · rintro ⟨hl, hf⟩ (y | y | y) hy
    · rintro rfl
      contradiction
    · cases b with
      | true => exact .inl rfl
      | false =>
          right
          rintro rfl
          exact hf rfl hy
    · trivial

theorem pairwise_compatible_iff (b : Bool) (ds : List Decl) :
    ds.Pairwise (Decl.Compatible b) ↔
      (ds.filterMap Decl.lexical?).Nodup ∧
      (∀ x, .lexical x ∈ ds → .function x ∉ ds ∧ .var x ∉ ds) ∧
      (b = false → ∀ x, .function x ∈ ds → .var x ∉ ds) := by
  induction ds with
  | nil => simp
  | cons d ds ih =>
      rw [List.pairwise_cons, ih]
      cases d with
      | lexical x =>
          rw [compatible_lexical_iff]
          simp only [List.filterMap_cons, Decl.lexical?, List.nodup_cons, mem_filterMap_lexical,
            List.mem_cons, Decl.lexical.injEq, reduceCtorEq, false_or]
          grind
      | var x =>
          rw [compatible_var_iff]
          simp only [List.filterMap_cons, Decl.lexical?, List.mem_cons, Decl.var.injEq,
            reduceCtorEq, false_or]
          grind
      | function x =>
          rw [compatible_function_iff]
          simp only [List.filterMap_cons, Decl.lexical?, List.mem_cons, Decl.function.injEq,
            reduceCtorEq, false_or]
          grind

theorem filterMap_var_filter (ds : List Decl) :
    (ds.filter Decl.isVar).filterMap Decl.var? = ds.filterMap Decl.var? := by
  rw [List.filterMap_filter]
  congr 1
  funext d
  cases d <;> rfl

mutual

theorem filterMap_var_decls : (t : Stmt) → (decls t).filterMap Decl.var? = Eval.varNames t
  | .decl .var ds => by simp [decls, Eval.varNames, List.filterMap_map, Decl.var?, Function.comp_def]
  | .decl .letDecl ds | .decl .constDecl ds => by
      simp [decls, Eval.varNames, Decl.var?]
  | .function f => by simp [decls, Eval.varNames, Decl.var?]
  | .ifElse _ t none => filterMap_var_decls t
  | .ifElse _ t (some f) => by
      rw [decls, List.filterMap_append, filterMap_var_decls t, filterMap_var_decls f, Eval.varNames]
  | .whileLoop _ body => filterMap_var_decls body
  | .doWhile body _ => filterMap_var_decls body
  | .forLoop none _ _ body => by
      rw [decls, filterMap_var_filter, filterMap_var_decls body, Eval.varNames]
  | .forLoop (some init) _ _ body => by
      rw [decls, filterMap_var_filter, List.filterMap_append, filterMap_var_decls init,
        filterMap_var_decls body, Eval.varNames]
  | .block body => by
      rw [decls, filterMap_var_filter, filterMap_var_declsOf body, Eval.varNames]
  | .tryCatch body none none => by
      simp [decls, filterMap_var_filter, filterMap_var_declsOf body, Eval.varNames]
  | .tryCatch body (some (_, h)) none => by
      simp [decls, filterMap_var_filter, filterMap_var_declsOf body, filterMap_var_declsOf h,
        Eval.varNames]
  | .tryCatch body none (some f) => by
      simp [decls, filterMap_var_filter, filterMap_var_declsOf body, filterMap_var_declsOf f,
        Eval.varNames]
  | .tryCatch body (some (_, h)) (some f) => by
      simp [decls, filterMap_var_filter, filterMap_var_declsOf body, filterMap_var_declsOf h,
        filterMap_var_declsOf f, Eval.varNames]
  | .breakLoop | .continueLoop | .returnValue _ | .throw _ | .expr _ | .empty => rfl

theorem filterMap_var_declsOf : (ts : List Stmt) →
    (decls.declsOf ts).filterMap Decl.var? = Eval.varNames.varNamesOf ts
  | [] => rfl
  | t :: ts => by
      rw [decls.declsOf, List.filterMap_append, filterMap_var_decls t, filterMap_var_declsOf ts,
        Eval.varNames.varNamesOf]

end

theorem mem_varNames_iff (s : Scope) (x : String) :
    x ∈ s.varNames ↔ .var x ∈ decls.declsOf s.body := by
  rw [Scope.varNames, ← filterMap_var_declsOf, mem_filterMap_var]

/-- A scope accepts its declarations, in whatever order they stand, if and only if its names are
distinct and its functions apart from its `var` names. -/
theorem admitsAll_start_iff (s : Scope) (hs : s.Proper) :
    s.start.AdmitsAll (decls.declsOf s.body) ↔ s.Distinct ∧ s.Apart := by
  rw [Names.admitsAll_iff _ fun _ => rfl]
  have hadmits : (∀ d ∈ decls.declsOf s.body, s.start.Admits d) ↔
      (∀ x, .lexical x ∈ decls.declsOf s.body → x ∉ s.lexical ∧ x ∉ s.params) ∧
      (∀ x, .var x ∈ decls.declsOf s.body → x ∉ s.lexical) ∧
      (∀ x, .function x ∈ decls.declsOf s.body → x ∉ s.lexical) := by
    have hparams (x : String) : s.isFunction = true ∨ x ∉ s.params := by
      cases hb : s.isFunction with
      | true => exact .inl rfl
      | false => simp [hs.params hb]
    constructor
    · intro h
      exact ⟨fun x hx => ⟨(h _ hx).1, (h _ hx).2.1⟩, fun x hx => (h _ hx).1,
        fun x hx => (h _ hx).1⟩
    · rintro ⟨hl, hv, hf⟩ (x | x | x) hx
      · exact ⟨(hl x hx).1, (hl x hx).2, List.not_mem_nil⟩
      · exact ⟨hv x hx, .inr List.not_mem_nil⟩
      · exact ⟨hf x hx, hparams x⟩
  rw [hadmits, pairwise_compatible_iff]
  have hn := hs.nodup
  have ha := hs.apart
  simp only [Scope.Distinct, Scope.Apart, Scope.lexicalNames, Scope.functionNames,
    List.nodup_append, List.mem_append, mem_filterMap_lexical, mem_filterMap_function,
    mem_varNames_iff, Scope.start]
  grind

end SmallScript.Early
