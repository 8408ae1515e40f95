import SmallScript.Proofs.Eval.Scoping
import SmallScript.Proofs.Session.Moments
import Mathlib

namespace SmallScript

open Declares Eval Early

namespace Early.Names

structure Settled (s : Names) : Prop where
  isBoundary : s.isBoundary = true
  functions : s.functions = []
  nodup : s.lexical.Nodup
  apart : ∀ x ∈ s.lexical, x ∉ s.vars

variable {s : Names} {d : Decl} {ds : List Decl} {program : List Stmt}

theorem settled_fresh : (fresh true).Settled :=
  ⟨rfl, rfl, List.nodup_nil, fun _ hx => by cases hx⟩

theorem Settled.add (h : s.Settled) (hd : s.Admits d) : (s.add d).Settled := by
  refine ⟨by rw [add_isBoundary, h.isBoundary], by rw [functions_add s h.isBoundary, h.functions],
    ?_, ?_⟩
  · cases d with
    | lexical x => exact List.nodup_cons.mpr ⟨hd.1, h.nodup⟩
    | var x => exact h.nodup
    | function x => simpa [Names.add, h.isBoundary] using h.nodup
  · cases d with
    | lexical x => exact List.forall_mem_cons.mpr ⟨hd.2.1, h.apart⟩
    | var x =>
        intro y hy hmem
        rcases List.mem_cons.mp hmem with rfl | hmem
        · exact hd.1 hy
        · exact h.apart y hy hmem
    | function x =>
        simp only [Names.add, h.isBoundary, if_true]
        intro y hy hmem
        rcases List.mem_cons.mp hmem with rfl | hmem
        · exact hd.1 hy
        · exact h.apart y hy hmem

theorem Settled.addAll (h : s.Settled) (hds : s.AdmitsAll ds) : (s.addAll ds).Settled := by
  induction ds generalizing s with
  | nil => exact h
  | cons d ds ih => exact ih (h.add hds.1) hds.2

/-- The scope of a program that is admitted has no name twice, those of the session included. -/
theorem Settled.distinct (h : s.Settled) (hprogram : s.AdmitsAll (decls.declsOf program)) :
    (Scope.mk true s.lexical s.vars program).Distinct ∧
      (Scope.mk true s.lexical s.vars program).Apart := by
  have hproper : (Scope.mk true s.lexical s.vars program).Proper :=
    ⟨h.nodup, h.apart, fun hblock => by cases hblock⟩
  have hstart : (Scope.mk true s.lexical s.vars program).start = s := by
    rw [Scope.start, ← h.functions, ← h.isBoundary]
  exact (admitsAll_start_iff _ hproper).mp (hstart ▸ hprogram)

end Early.Names

/-- The care is observed in all programs that any analyzer accepts among the texts. -/
def Care.ObservedIn (C : Care) (entries : List Session.Entry) : Prop :=
  ∀ source, .text source ∈ entries → ∀ program a b, Program.parse source = .ok program →
    analyze program a = .ok () b → C.Observed program

namespace Care

variable {C : Care} {source : String} {e : Session.Entry} {entries : List Session.Entry}

theorem observedIn_cons :
    C.ObservedIn (e :: entries) ↔ C.ObservedIn [e] ∧ C.ObservedIn entries := by
  simp only [ObservedIn, List.mem_cons, List.not_mem_nil, or_false, or_imp, forall_and]

theorem observedIn_of_parse {program : Program} (hp : Program.parse source = .ok program)
    (h : C.Observed program) : C.ObservedIn [source] := by
  intro r hr program' a b hp' _
  cases List.mem_singleton.mp hr
  rw [hp] at hp'
  cases hp'
  exact h

end Care

namespace Session

variable {C : Care} {host : Host} {fuel : Nat} {source : String} {s t : Session}
  {program : Program} {b : Analyzer}

theorem Ready.admitsAll (hs : s.Ready) (h : s.Takes source program b) :
    s.names.AdmitsAll (decls.declsOf program) ∧
      b.scopes = [s.names.addAll (decls.declsOf program)] := by
  obtain ⟨names, hnames, hboundary⟩ := hs
  obtain ⟨⟨-, hadmits⟩, hb⟩ := (analyze_accepts program names hboundary _ b hnames).mp h.accepts
  rw [Session.names, hnames, List.headD_cons]
  exact ⟨hadmits, hb ▸ rfl⟩

structure Scoped (C : Care) (s : Session) : Prop where
  kept : s.Kept (Discipline.scoping C s.global)
  settled : s.names.Settled
  constant : ∀ x v, s.state.memory.bindingAt? s.global x = some ⟨v, false⟩ →
    x ∈ s.names.lexical ∨ x ∈ Memory.constants

theorem Scoped.constant_of_grows (hs : s.Scoped C) {s' : State} {x : String} {v : Value}
    (hgrows : (entered s.global program s.state).Grows
      (inFrame s.global (mutables (hoisted program))) s')
    (hx : s'.memory.bindingAt? s.global x = some ⟨v, false⟩) :
    x ∈ s.names.lexical ∨ x ∈ Memory.constants := by
  have hlt : s.global < (entered s.global program s.state).memory.frames.size := by
    rw [entered, (Memory.frameAt_declareVars hs.kept.lt hs.kept.isBoundary _).1]
    exact hs.kept.lt
  have hchange := hgrows.memory.change s.global hlt x
  rw [hx] at hchange
  have hentered : (entered s.global program s.state).memory.bindingAt? s.global x =
      some ⟨v, false⟩ := by
    generalize (entered s.global program s.state).memory.bindingAt? s.global x = b at hchange
    cases hchange with
    | same => rfl
    | declared _ _ _ hd => cases (mem_mutables.mp hd.2).1
  rw [entered, Memory.bindingAt?_declareVars hs.kept.lt hs.kept.isBoundary] at hentered
  split at hentered
  · cases hentered
  · exact hs.constant x v hentered

theorem Scoped.admits (hs : s.Scoped C) (h : s.Takes source program b)
    (hcare : C.Observed program) : s.Admits (Discipline.scoping C s.global) program := by
  obtain ⟨hdistinct, hapart⟩ := hs.settled.distinct (hs.kept.ready.admitsAll h).1
  refine ⟨fun x hx => ⟨hs.kept.ready.allValid h.accepts x hx, hcare.parts x hx⟩, ?_⟩
  intro s' hs' hgrows _
  have hentered := (hs.kept.holds_entered program).2
  have hall := hentered.of_nowhere.trans hgrows.memory
  have hlt := hs.kept.lt
  have hnodup := hdistinct.1
  rw [Scope.lexicalNames, filterMap_lexical_declsOf, List.nodup_append] at hnodup
  refine .intro (.program rfl rfl ?_ ⟨fun _ hbody => (by cases hbody), fun _ hx => (by cases hx),
    fun _ => hcare.starts⟩) ⟨List.Subset.refl _, hnodup.2.1, fun _ _ _ _ => .inr (.inl rfl), ?_⟩
  · refine ⟨hdistinct, hapart, fun hblock => (by cases hblock), hs'.rooted.global_lt,
      (hall.isBoundary _ hlt).trans hs.kept.isBoundary, ?_, fun hblock => (by cases hblock), ?_, ?_⟩
    · rw [show (s'.memory.frameAt s.global).parent = none from hs'.rooted.global_parent]
      simp [Level.program]
    · intro _ x hx
      exact hgrows.memory.isDeclaredHere
        (Memory.isDeclaredHere_declareVars hlt hs.kept.isBoundary hx)
    · intro x v hx
      rcases hs.constant_of_grows hgrows hx with hlexical | hconstant
      · exact .inl (List.mem_append_left _ hlexical)
      · exact .inr ⟨rfl, hconstant⟩
  · intro x isMutable v hx hbound
    rcases hs.constant_of_grows hgrows hbound with hlexical | hconstant
    · exact absurd rfl (hnodup.2.2 x hlexical x (List.mem_map_of_mem hx))
    · exact .inl ⟨rfl, hconstant⟩

theorem Scoped.eval (hs : s.Scoped C) (hcare : C.ObservedIn [source])
    (h : (s.eval host fuel source).state? = some t) : t.Scoped C ∧ s.Leaves source t := by
  have hadmits (program : Program) (b : Analyzer) (htakes : s.Takes source program b) :
      s.Admits (Discipline.scoping C s.global) program :=
    hs.admits htakes (hcare source (List.mem_singleton_self _) program _ b htakes.parses
      htakes.accepts)
  obtain ⟨hkept, hglobal, hleaves⟩ := hs.kept.eval (fun _ => trivial) hadmits h
  rw [← hglobal] at hkept
  refine ⟨?_, hleaves⟩
  cases hleaves with
  | refused hstate hscopes =>
      have hnames : t.names = s.names := by rw [names, names, hscopes]
      refine ⟨hkept, hnames ▸ hs.settled, fun x v hx => ?_⟩
      rw [hstate, hglobal] at hx
      exact hnames ▸ hs.constant x v hx
  | ran program htakes hgrows =>
      obtain ⟨hadmitted, hscopes⟩ := hs.kept.ready.admitsAll htakes
      have hnames : t.names = s.names.addAll (decls.declsOf program) := by
        rw [names, hscopes, List.headD_cons]
      refine ⟨hkept, hnames ▸ hs.settled.addAll hadmitted, fun x v hx => ?_⟩
      rw [hglobal] at hx
      rw [hnames, Names.mem_lexical_addAll]
      have hchange := hgrows.change s.global hs.kept.lt x
      have hbefore := hs.constant x v
      rw [hx] at hchange
      generalize s.state.memory.bindingAt? s.global x = b at hchange hbefore
      cases hchange with
      | same => exact (hbefore rfl).imp_left .inl
      | declared _ _ _ hd =>
          rcases List.mem_append.mp hd.2 with hfunction | hlexical
          · cases (mem_mutables.mp hfunction).1
          · exact .inl (.inr (lexical_mem_of_declaredBy hlexical))

theorem start_scoped (C : Care) (interactive : Bool) : (start interactive).Scoped C :=
  ⟨start_kept interactive rfl, Names.settled_fresh,
    fun _ _ hx => .inr (Memory.constant_newGlobal hx rfl)⟩

theorem Scoped.setInteractive (hs : s.Scoped C) (isOn : Bool) : (s.setInteractive isOn).Scoped C :=
  ⟨⟨hs.kept.ready, hs.kept.global, hs.kept.holds, hs.kept.isBoundary⟩, hs.settled, hs.constant⟩

theorem evalAll_scoped (entries : List Entry) (hs : s.Scoped C) (hcare : C.ObservedIn entries)
    (h : evalAll host fuel entries s = some t) : t.Scoped C := by
  induction entries generalizing s with
  | nil => exact Option.some.inj h ▸ hs
  | cons e entries ih =>
      obtain ⟨u, hu, ht⟩ := Option.bind_eq_some_iff.mp h
      obtain ⟨hfirst, hrest⟩ := Care.observedIn_cons.mp hcare
      cases e with
      | text r => exact ih (hs.eval hfirst hu).1 hrest ht
      | echo isOn =>
          cases hu
          exact ih (hs.setInteractive isOn) hrest ht

/-- A run comes to no moment that the discipline of scopes excludes. -/
theorem Scoped.not_meetsAt (hs : s.Scoped C) {P : Moments}
    (hP : (Discipline.scoping C s.global).Excludes host P) (hcare : C.ObservedIn [source]) :
    ¬s.MeetsAt host fuel P source :=
  hs.kept.not_meetsAt hP fun program b htakes =>
    hs.admits htakes (hcare source (List.mem_singleton_self _) program _ b htakes.parses
      htakes.accepts)

end Session

end SmallScript
