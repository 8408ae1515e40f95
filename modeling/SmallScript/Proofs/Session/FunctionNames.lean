import SmallScript.Proofs.Session.Moments
import Mathlib

namespace SmallScript

open Eval Early

def Part.alone : Part → List Stmt
  | .stmt _ (.ifElse _ t e) => t :: e.toList
  | .stmt _ (.whileLoop _ body) => [body]
  | .stmt _ (.doWhile body _) => [body]
  | .stmt _ (.forLoop init _ _ body) => init.toList ++ [body]
  | _ => []

theorem mem_hoisted {definition : Function} {x : String} {ts : List Stmt}
    (h : .function definition ∈ ts) (hx : definition.name = some x) : x ∈ hoisted ts := by
  fun_induction hoisted ts with
  | case1 => cases h
  | case2 d ts ih =>
      rcases List.mem_cons.mp h with hd | hrest
      · cases hd
        exact List.mem_append_left _ (by simp [hx])
      · exact List.mem_append_right _ (ih hrest)
  | case3 t ts hne ih =>
      rcases List.mem_cons.mp h with hd | hrest
      · exact (hne _ hd.symm).elim
      · exact ih hrest

namespace Eval

/-- The functions that are declared directly in the list have their names bound in the frame, as far
as they are of the kind `S`. -/
def BindsOf (S : Function → Prop) (m : Memory) (f : FrameRef) (ts : List Stmt) : Prop :=
  ∀ definition x, S definition → .function definition ∈ ts → definition.name = some x →
    m.isDeclaredHere f x = true

variable {S : Function → Prop} {m m' : Memory} {f g : FrameRef} {d : Declares} {ts us : List Stmt}

theorem BindsOf.mono (h : BindsOf S m f ts) (hgrows : m.Grows d m')
    (hus : ∀ definition, S definition → .function definition ∈ us → .function definition ∈ ts) :
    BindsOf S m' f us := by
  intro definition x hS hmem hx
  exact hgrows.isDeclaredHere (h definition x hS (hus definition hS hmem) hx)

theorem bindsOf_of_bindsFunctions (h : m.BindsFunctions f ts) : BindsOf S m f ts :=
  fun _ x _ hmem hx => h x (mem_hoisted hmem hx)

theorem bindsOf_of_alone (h : ∀ definition, S definition → .function definition ∉ us)
    (hts : ts ⊆ us) : BindsOf S m f ts :=
  fun definition _ hS hmem _ => (h definition hS (hts hmem)).elim

def Discipline.declaring (g : FrameRef) (S : Function → Prop) : Discipline where
  global := g
  gains _ := True
  ok x := ∀ definition, S definition → .function definition ∉ x.alone
  here _ f s := f < s.memory.frames.size
  ready _ f ts s := f < s.memory.frames.size ∧ BindsOf S s.memory f ts
  ok_empty _ _ h := by cases h
  here_lt h := h
  here_grows h hgrows := Nat.lt_of_lt_of_le h hgrows.size_le
  ready_here h hgrows := Nat.lt_of_lt_of_le h.1 hgrows.size_le
  ready_grows h hgrows :=
    ⟨Nat.lt_of_lt_of_le h.1 hgrows.size_le, h.2.mono hgrows.memory fun _ _ => id⟩
  ready_head h := ⟨h.1, h.2.mono (.refl .nowhere _) fun _ _ hmem => by
    rw [List.mem_singleton.mp hmem]
    exact List.mem_cons_self⟩
  ready_tail h hgrows := ⟨Nat.lt_of_lt_of_le h.1 hgrows.size_le,
    h.2.mono hgrows.memory fun _ _ => List.mem_cons_of_mem _⟩
  ready_then h hok := ⟨h.1, bindsOf_of_alone hok (by simp [Part.alone])⟩
  ready_else h hok := ⟨h.1, bindsOf_of_alone hok (by simp [Part.alone])⟩
  ready_while h hok hgrows :=
    ⟨Nat.lt_of_lt_of_le h.1 hgrows.size_le, bindsOf_of_alone hok (List.Subset.refl _)⟩
  ready_do h hok hgrows :=
    ⟨Nat.lt_of_lt_of_le h.1 hgrows.size_le, bindsOf_of_alone hok (List.Subset.refl _)⟩
  ready_again h _ hgrows :=
    ⟨Nat.lt_of_lt_of_le h.1 hgrows.size_le, h.2.mono hgrows.memory fun _ _ => id⟩
  ready_opens _ hopens hok _ hbody hframe _ _ hbinds := by
    refine ⟨hframe.lt, ?_⟩
    rcases hbinds with hbinds | ⟨init, test, update, body, rfl⟩
    · exact bindsOf_of_bindsFunctions hbinds
    · -- What follows the head of a loop stands alone.
      cases hopens
      have hbody : init.toList ++ [body] = _ := hbody
      exact bindsOf_of_alone hok (by simp [Part.alone, hbody])
  ready_call _ _ hframe _ _ _ hbinds := ⟨hframe.lt, bindsOf_of_bindsFunctions hbinds⟩

/-- The moments at which a function declaration of the kind `S` is run and its name is not bound in
the frame. -/
def ignored (S : Function → Prop) : Moments where
  expr _ _ _ _ _ := False
  stmt _ _ f t s := ∃ definition x, t = .function definition ∧ definition.name = some x ∧
    S definition ∧ s.memory.isDeclaredHere f x = false

theorem declaring_excludes (host : Host) (g : FrameRef) (S : Function → Prop) :
    (Discipline.declaring g S).Excludes host (ignored S) where
  gains _ := trivial
  expr _ _ _ _ _ _ _ _ := id
  stmt n ctx p f t s _ _ hready := by
    rintro ⟨definition, x, rfl, hx, hS, hunbound⟩
    have hbound := hready.2 definition x hS (List.mem_singleton_self _) hx
    simp [hbound] at hunbound

end Eval

namespace Session

variable {host : Host} {fuel : Nat} {s : Session} {S : Function → Prop}

/-- The function is a whole branch or loop body in a program that an analyzer accepts among the
texts. -/
def StandsAlone (entries : List Entry) (definition : Function) : Prop :=
  ∃ source, .text source ∈ entries ∧ ∃ program a b, Program.parse source = .ok program ∧
    analyze program a = .ok () b ∧ ∃ x ∈ stmtsParts .top program, .function definition ∈ x.alone

theorem Takes.declaring_admits {g : FrameRef} {source : String} {program : Program} {b : Analyzer}
    (h : s.Takes source program b) (hglobal : g = s.global)
    (hS : ∀ definition, S definition → ¬StandsAlone [source] definition) :
    s.Admits (Discipline.declaring g S) program := by
  refine ⟨fun x hx definition hdefinition halone => ?_, fun s' hs' _ hbinds => ?_⟩
  · exact hS definition hdefinition ⟨source, List.mem_singleton_self _, program, s.analyzer, b,
      h.parses, h.accepts, x, hx, halone⟩
  · exact ⟨hglobal ▸ hs'.rooted.global_lt, bindsOf_of_bindsFunctions hbinds⟩

/-- Whenever a function declaration is run, the frame binds its name, unless the declaration is a
whole branch or loop body in some text. -/
theorem functions_bound_in_lists (fuel : Nat) (interactive : Bool) (earlier : List Entry)
    (source : String) (h : evalAll host fuel earlier (start interactive) = some s) :
    ¬s.MeetsAt host fuel (ignored fun definition => ¬StandsAlone (source :: earlier) definition)
      source := by
  have hlists (r : String) (hr : .text r ∈ .text source :: earlier) (definition : Function)
      (hS : ¬StandsAlone (source :: earlier) definition) : ¬StandsAlone [r] definition := by
    rintro ⟨r', hr', hprogram⟩
    exact hS ⟨r', List.mem_singleton.mp hr' ▸ hr, hprogram⟩
  have hkept := (start_kept interactive rfl).evalAll
    (K := .declaring (start interactive).global fun definition =>
      ¬StandsAlone (source :: earlier) definition) earlier (fun _ => trivial)
    (fun u r hr _ _ hu htakes =>
      htakes.declaring_admits hu.global (hlists r (List.mem_cons_of_mem _ hr))) h
  exact hkept.not_meetsAt (declaring_excludes host _ _) fun _ _ htakes =>
    htakes.declaring_admits hkept.global (hlists source (List.mem_cons_self ..))

/-- A block with a declaration of its own, behind a text with one that is a branch. -/
theorem functions_bound_in_lists_block : ∃ s,
    evalAll ⟨8, fun _ => none⟩ 20 ["if (true) function g() { }"] (start false) = some s ∧
      ¬s.MeetsAt ⟨8, fun _ => none⟩ 20
        (ignored fun definition => ¬StandsAlone ["{ f(g) ; function f(a) { } }",
          "if (true) function g() { }"] definition) "{ f(g) ; function f(a) { } }" := by
  have hsome : (evalAll ⟨8, fun _ => none⟩ 20 ["if (true) function g() { }"]
      (start false)).isSome = true := by cbv
  obtain ⟨s, hs⟩ := Option.isSome_iff_exists.mp hsome
  exact ⟨s, hs, functions_bound_in_lists 20 false _ _ hs⟩

end Session

end SmallScript
