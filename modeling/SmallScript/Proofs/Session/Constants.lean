import SmallScript.Proofs.Session.Scoping
import Mathlib

namespace SmallScript

open Declares Eval

def Memory.KeepsConstants (m m' : Memory) : Prop :=
  ∀ i x v, m.bindingAt? i x = some ⟨v, false⟩ → m'.bindingAt? i x = some ⟨v, false⟩

theorem Memory.Grows.keepsConstants {d : Declares} {m m' : Memory} (h : m.Grows d m')
    (hd : ∀ i x isMutable v, d i x isMutable → m.bindingAt? i x ≠ some ⟨v, false⟩) :
    m.KeepsConstants m' := by
  intro i x v hx
  have hchange := h.change i (Memory.lt_size_of_bindingAt? hx) x
  have hdeclares := hd i x
  rw [hx] at hchange hdeclares
  generalize m'.bindingAt? i x = b at hchange
  cases hchange with
  | same => rfl
  | declared _ _ isMutable hd => exact absurd rfl (hdeclares isMutable v hd)

/-- The body of a loop whose passes run in one frame is no declaration of constants, and a program
declares no predefined constant at the top level. -/
def Care.constants : Care where
  repeats body := ∀ x, (x, false) ∉ body.declares
  catches _ _ := True
  starts program :=
    ∀ x ∈ Memory.constants, x ∉ (declaredBy program).map Prod.fst ∧ x ∉ hoisted program

/-- The moments at which a tree changes an immutable binding of the memory as it is, or makes it
mutable, and those at which it has come to a declarator that would replace one. -/
def changingConstants (host : Host) : Moments where
  expr _ E f e s :=
    ∃ s', (evalExpr host E f e s).state? = some s' ∧ ¬s.memory.KeepsConstants s'.memory
  stmt _ E f t s :=
    (∃ s', (evalStmt E f t s).state? = some s' ∧ ¬s.memory.KeepsConstants s'.memory) ∨
      ∃ kind ds x v s' w, t = .decl kind ds ∧ kind ≠ .var ∧ Stores E f kind x v s' ds s ∧
        s'.memory.bindingAt? f x = some ⟨w, false⟩

theorem Eval.ScopesReady.not_constant {ctx : Context} {f : FrameRef} {ts : List Stmt} {m : Memory}
    (h : ScopesReady .constants ctx f ts m) {x : String} {isMutable : Bool}
    (hx : (x, isMutable) ∈ declaredBy ts) (v : Value) : m.bindingAt? f x ≠ some ⟨v, false⟩ := by
  intro hbound
  obtain ⟨l, ctx', rfl, -, hcare, hready⟩ := h.head
  rcases hready.constant x isMutable v hx hbound with ⟨hprogram, hconstant⟩ | ⟨body, hbody, hmem⟩
  · have hlexical := hready.sub (Early.lexical_mem_of_declaredBy hx)
    rw [← Early.mem_filterMap_lexical, Early.filterMap_lexical_declsOf] at hlexical
    exact (hcare.starts hprogram x hconstant).1 hlexical
  · exact hcare.repeats body hbody x hmem

theorem Eval.constants_excludes (host : Host) (g : FrameRef) :
    (Discipline.scoping .constants g).Excludes host (changingConstants host) where
  gains _ := trivial
  expr n ctx f e s he hs hhere := by
    rintro ⟨s', hend, hchanges⟩
    refine hchanges ((Discipline.scoping_exprIn he hs hhere hend).memory.keepsConstants ?_)
    exact fun _ _ _ _ hd => hd.elim
  stmt n ctx p f t s ht hs hready := by
    rintro (⟨s', hend, hchanges⟩ | ⟨kind, ds, x, v, s', w, rfl, hkind, hstores, hbound⟩)
    · refine hchanges ((Discipline.scoping_stmtIn ht hs hready hend).memory.keepsConstants ?_)
      rintro i x isMutable v ⟨rfl, hx⟩
      exact hready.not_constant (by simpa using hx) v
    · obtain ⟨-, init, post, hready'⟩ := Discipline.scoping_stores ht hs hready hstores
      obtain ⟨isMutable, hx⟩ := mem_declares_of_store hkind x init post
      exact hready'.not_constant hx w hbound

namespace Session

variable {host : Host} {fuel : Nat} {source : String} {s t : Session}

/-- What a program declares at the top level, functions included, was no constant before. -/
theorem Scoped.keepsConstants (hs : s.Scoped .constants) (hcare : Care.constants.ObservedIn [source])
    (h : s.Leaves source t) : s.state.memory.KeepsConstants t.state.memory := by
  cases h with
  | refused hstate _ =>
      rw [hstate]
      exact fun _ _ _ => id
  | ran program htakes hgrows =>
      have hstarts := (hcare source (List.mem_singleton_self _) program _ _ htakes.parses
        htakes.accepts).starts
      obtain ⟨hdistinct, -⟩ := hs.settled.distinct (hs.kept.ready.admitsAll htakes).1
      have hnodup := hdistinct.1
      rw [Scope.lexicalNames, Early.filterMap_lexical_declsOf, List.nodup_append] at hnodup
      refine hgrows.keepsConstants ?_
      rintro i x isMutable v ⟨rfl, hx⟩ hbound
      rcases hs.constant x v hbound with hlexical | hconstant
      · rcases List.mem_append.mp hx with hfunction | hdeclared
        · refine (hdistinct.2 x (List.mem_append_left _ hlexical)).2.1 ?_
          exact (Early.mem_filterMap_function _ _).mpr
            (Early.function_mem_of_hoisted (mem_mutables.mp hfunction).2)
        · exact hnodup.2.2 x hlexical x (List.mem_map_of_mem hdeclared) rfl
      · rcases List.mem_append.mp hx with hfunction | hdeclared
        · exact (hstarts x hconstant).2 (mem_mutables.mp hfunction).2
        · exact (hstarts x hconstant).1 (List.mem_map_of_mem hdeclared)

theorem Scoped.meetsAt_of_letDecl {C : Care} (hs : s.Scoped C) {n : Nat} {x : String} {v : Value}
    {ds : List (String × Option Expr)} {ts : List Stmt} {b : Early.Analyzer}
    (h : s.Takes source (.decl .letDecl ((x, none) :: ds) :: ts) b)
    (hx : s.state.memory.bindingAt? s.global x = some ⟨v, false⟩) :
    s.MeetsAt host (n + 1) (changingConstants host) source := by
  have hdistinct := (hs.settled.distinct (hs.kept.ready.admitsAll h).1).1
  have hfunction : x ∉ hoisted (.decl .letDecl ((x, none) :: ds) :: ts) := by
    intro hmem
    refine (hdistinct.2 x (List.mem_append_right _ (by simp [Early.decls.declsOf, Early.decls, Early.Decl.lexical?]))).2.1 ?_
    exact (Early.mem_filterMap_function _ _).mpr (Early.function_mem_of_hoisted hmem)
  have hlt : s.global < (entered s.global (.decl .letDecl ((x, none) :: ds) :: ts)
      s.state).memory.frames.size := by
    rw [entered, (Memory.frameAt_declareVars hs.kept.lt hs.kept.isBoundary _).1]
    exact hs.kept.lt
  obtain ⟨state, hhoist, hkeeps, -⟩ :=
    hoistFunctions_done (.decl .letDecl ((x, none) :: ds) :: ts) hlt
  refine meetsAt_of_first h hhoist (.inr ?_)
  refine ⟨.letDecl, _, x, none, state, v, rfl, by simp, .here rfl, ?_⟩
  rw [hkeeps x hfunction, entered, Memory.bindingAt?_declareVars hs.kept.lt hs.kept.isBoundary,
    if_neg, hx]
  rintro ⟨-, -, hunbound⟩
  rw [Memory.isDeclaredHere_eq_false, hx] at hunbound
  cases hunbound

example : (evalAll ⟨8, fun _ => none⟩ 20 ["let undefined = 'a'"] (start false)).map
    (fun s => s.state.memory.bindingAt? s.global "undefined") = some (some ⟨.string "a", true⟩) := by
  cbv

theorem evalAll_keepsConstants (entries : List Entry) (hs : s.Scoped .constants)
    (hcare : Care.constants.ObservedIn entries) (h : evalAll host fuel entries s = some t) :
    s.state.memory.KeepsConstants t.state.memory := by
  induction entries generalizing s with
  | nil =>
      cases h
      exact fun _ _ _ => id
  | cons e entries ih =>
      obtain ⟨u, hu, ht⟩ := Option.bind_eq_some_iff.mp h
      obtain ⟨hfirst, hrest⟩ := Care.observedIn_cons.mp hcare
      cases e with
      | text r =>
          obtain ⟨hscoped, hleaves⟩ := hs.eval hfirst hu
          have hkeeps := ih hscoped hrest ht
          exact fun i x v hx => hkeeps i x v (hs.keepsConstants hfirst hleaves i x v hx)
      | echo isOn =>
          cases hu
          exact ih (s := s.setInteractive isOn) (hs.setInteractive isOn) hrest ht

/-- A constant of the session stays what it is through any further texts, and in the run of a text
no constant that a frame has by then is changed. -/
theorem constants_stay (fuel : Nat) (interactive : Bool) (earlier : List Entry)
    (h : evalAll host fuel earlier (start interactive) = some s)
    (hcare : Care.constants.ObservedIn earlier) :
    (∀ later t, Care.constants.ObservedIn later → evalAll host fuel later s = some t →
      s.state.memory.KeepsConstants t.state.memory) ∧
    ∀ source : String, Care.constants.ObservedIn [source] →
      ¬s.MeetsAt host fuel (changingConstants host) source := by
  have hs := evalAll_scoped earlier (start_scoped .constants interactive) hcare h
  refine ⟨fun later t hlater ht => evalAll_keepsConstants later hs hlater ht, fun source hsource => ?_⟩
  exact hs.not_meetsAt (constants_excludes host s.global) hsource

theorem constants_stay_loop : ∃ s,
    evalAll ⟨8, fun _ => none⟩ 20 ["const a = 'b'; while (a) { const c = a; break }"]
        (start false) = some s ∧
      (∀ later t, Care.constants.ObservedIn later →
        evalAll ⟨8, fun _ => none⟩ 20 later s = some t →
          s.state.memory.KeepsConstants t.state.memory) ∧
      ∀ source : String, Care.constants.ObservedIn [source] →
        ¬s.MeetsAt ⟨8, fun _ => none⟩ 20 (changingConstants ⟨8, fun _ => none⟩) source := by
  have hsome : (evalAll ⟨8, fun _ => none⟩ 20
      ["const a = 'b'; while (a) { const c = a; break }"] (start false)).isSome = true := by cbv
  have hparse : Program.parse "const a = 'b'; while (a) { const c = a; break }" =
      .ok [.decl .constDecl [("a", some (.string "b"))], .whileLoop (.ident "a")
        (.block [.decl .constDecl [("c", some (.ident "a"))], .breakLoop])] := by cbv
  have hcare : Care.constants.ObservedIn ["const a = 'b'; while (a) { const c = a; break }"] := by
    refine Care.observedIn_of_parse hparse ⟨?_, ?_⟩
    · simp [Care.constants, Memory.constants, Stmt.declares, hoisted]
    · simp [Care.part, Care.constants, stmtsParts, stmtParts, declaratorParts, maybeExprParts,
        exprParts, Stmt.declares]
  obtain ⟨s, hs⟩ := Option.isSome_iff_exists.mp hsome
  exact ⟨s, hs, constants_stay 20 false _ hs hcare⟩

end Session

end SmallScript
