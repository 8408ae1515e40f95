import SmallScript.Proofs.Eval.Context
import SmallScript.Proofs.Memory.Global
import Mathlib

namespace SmallScript

open Declares Early

/-- What is asked of programs beyond what the analyzer asks. -/
structure Care where
  /-- Of the body of a loop if all passes run in one frame. -/
  repeats : Stmt → Prop
  /-- Of the parameter and the body of a catch clause. -/
  catches : String → List Stmt → Prop
  /-- Of a whole program. -/
  starts : List Stmt → Prop

namespace Care

def part (C : Care) : Part → Prop
  | .stmt _ (.whileLoop _ body) => C.repeats body
  | .stmt _ (.doWhile body _) => C.repeats body
  | .stmt _ (.forLoop init _ _ body) => Eval.loopNames init = [] → C.repeats body
  | .stmt _ (.tryCatch _ (some (param, body)) _) => C.catches param body
  | _ => True

structure Observed (C : Care) (program : List Stmt) : Prop where
  starts : C.starts program
  parts : ∀ x ∈ stmtsParts .top program, C.part x

end Care

namespace Level

/-- All names that are declared for the frame of a scope, each as often as it is declared. -/
def names (l : Level) : List String :=
  l.caught.toList ++ (l.scope.params ++ (l.scope.lexicalNames ++ (l.scope.functionNames ++
    if l.scope.isFunction then l.scope.varNames else [])))

structure Careful (C : Care) (l : Level) : Prop where
  repeats : ∀ body ∈ l.repeated, C.repeats body
  catches : ∀ x, l.caught = some x → C.catches x l.scope.body
  starts : l.isProgram = true → C.starts l.scope.body

/-- The scope describes the frame `i`. -/
structure Fits (l : Level) (m : Memory) (i : FrameRef) : Prop where
  distinct : l.scope.Distinct
  apart : l.scope.Apart
  params : l.scope.isFunction = false → l.scope.params = []
  lt : i < m.frames.size
  isBoundary : (m.frameAt i).isBoundary = l.scope.isFunction
  isProgram : (m.frameAt i).parent = none ↔ l.isProgram = true
  named : l.isProgram = false → ∀ x, m.isDeclaredHere i x = true → x ∈ l.names
  hoisted : l.scope.isFunction = true → ∀ x ∈ l.scope.varNames, m.isDeclaredHere i x = true
  constant : ∀ x v, m.bindingAt? i x = some ⟨v, false⟩ →
    x ∈ l.scope.lexicalNames ∨ l.isProgram = true ∧ x ∈ Memory.constants

variable {l : Level} {m m' : Memory} {i : FrameRef} {d : Declares} {x : String}

theorem lexicalNames_subset_names (hx : x ∈ l.scope.lexicalNames) : x ∈ l.names :=
  List.mem_append_right _ (List.mem_append_right _ (List.mem_append_left _ hx))

theorem functionNames_subset_names (hx : x ∈ l.scope.functionNames) : x ∈ l.names :=
  List.mem_append_right _ (List.mem_append_right _ (List.mem_append_right _
    (List.mem_append_left _ hx)))

/-- A `let` or `const` name is declared once, unless it is also the parameter of the catch clause. -/
theorem Fits.count_names (h : l.Fits m i) (hx : x ∈ l.scope.lexicalNames)
    (hcaught : l.caught ≠ some x) : l.names.count x = 1 := by
  obtain ⟨hparams, hfunctions, hvars⟩ := h.distinct.2 x hx
  have hbefore : l.caught.toList.count x = 0 := by simpa [List.count_eq_zero] using hcaught
  have hbehind : (if l.scope.isFunction then l.scope.varNames else []).count x = 0 := by
    split
    · exact List.count_eq_zero.mpr hvars
    · rfl
  rw [names, List.count_append, List.count_append, List.count_append, List.count_append, hbefore,
    hbehind, List.count_eq_zero.mpr hparams, List.count_eq_zero.mpr hfunctions,
    List.count_eq_one_of_mem h.distinct.1 hx]

/-- Names of `var` are bound in a scope inside a function by a catch clause only. -/
theorem Fits.caught_of_varName (h : l.Fits m i) (hblock : l.scope.isFunction = false)
    (hprogram : l.isProgram = false) (hx : x ∈ l.scope.varNames)
    (hbound : m.isDeclaredHere i x = true) : l.caught = some x := by
  have hnames := h.named hprogram x hbound
  rw [names, h.params hblock, hblock] at hnames
  simp only [List.mem_append, Option.mem_toList, List.not_mem_nil, Bool.false_eq_true, if_false,
    false_or, or_false] at hnames
  rcases hnames with hcaught | hlexical | hfunction
  · exact hcaught
  · exact absurd hx (h.distinct.2 x hlexical).2.2
  · exact absurd hx (h.apart hblock x hfunction)

theorem Fits.grows (h : l.Fits m i) (hgrows : m.Grows d m')
    (hd : ∀ x isMutable, d i x isMutable → x ∈ l.scope.lexicalNames) : l.Fits m' i where
  distinct := h.distinct
  apart := h.apart
  params := h.params
  lt := Nat.lt_of_lt_of_le h.lt hgrows.size_le
  isBoundary := (hgrows.isBoundary i h.lt).trans h.isBoundary
  isProgram := by rw [hgrows.parent i h.lt, h.isProgram]
  named hprogram x hx := by
    obtain ⟨b', hb'⟩ := Memory.isDeclaredHere_iff.mp hx
    have hchange := hgrows.change i h.lt x
    have hbefore := h.named hprogram x
    rw [Memory.isDeclaredHere_iff] at hbefore
    rw [hb'] at hchange
    generalize m.bindingAt? i x = b at hchange hbefore
    cases hchange with
    | same => exact hbefore ⟨b', rfl⟩
    | written v w => exact hbefore ⟨_, rfl⟩
    | gained v hglobal =>
        rw [h.isProgram.mp hglobal] at hprogram
        cases hprogram
    | declared _ v isMutable hdeclares =>
        exact lexicalNames_subset_names (hd x isMutable hdeclares)
  hoisted hfunction x hx := hgrows.isDeclaredHere (h.hoisted hfunction x hx)
  constant x v hx := by
    have hchange := hgrows.change i h.lt x
    have hbefore := h.constant x v
    rw [hx] at hchange
    generalize m.bindingAt? i x = b at hchange hbefore
    cases hchange with
    | same => exact hbefore rfl
    | declared _ _ _ hdeclares => exact .inl (hd x false hdeclares)

theorem Fits.repeating (h : l.Fits m i) (body : Stmt) :
    Fits { l with repeated := body :: l.repeated } m i where
  distinct := h.distinct
  apart := h.apart
  params := h.params
  lt := h.lt
  isBoundary := h.isBoundary
  isProgram := h.isProgram
  named := h.named
  hoisted := h.hoisted
  constant := h.constant

end Level

/-- The open scopes describe the frames of a run that has come to the frame `f`: those of the scopes
of its function, and with them those of its callers. -/
inductive Describes (C : Care) (m : Memory) : Context → FrameRef → Prop where
  | program {l : Level} {f : FrameRef} (hprogram : l.isProgram = true)
      (hfunction : l.scope.isFunction = true) (hfits : l.Fits m f) (hcare : l.Careful C) :
      Describes C m [l] f
  | call {l : Level} {ctx : Context} {f f' : FrameRef} (hfunction : l.scope.isFunction = true)
      (hfits : l.Fits m f) (hcare : l.Careful C) (hlt : f' < f)
      (hcaller : Describes C m ctx f') : Describes C m (l :: ctx) f
  | inner {l l' : Level} {ctx : Context} {f f' : FrameRef} (hblock : l.scope.isFunction = false)
      (hfits : l.Fits m f) (hcare : l.Careful C) (hvars : l.scope.varNames ⊆ l'.scope.varNames)
      (hlt : f' < f) (hparent : (m.frameAt f).parent = some f')
      (houter : Describes C m (l' :: ctx) f') : Describes C m (l :: l' :: ctx) f

namespace Describes

variable {C : Care} {m m' : Memory} {ctx : Context} {f : FrameRef} {l : Level} {d : Declares}

theorem head (h : Describes C m ctx f) :
    ∃ l ctx', ctx = l :: ctx' ∧ l.Fits m f ∧ l.Careful C := by
  cases h with
  | program _ _ hfits hcare | call _ hfits hcare | inner _ hfits hcare =>
      exact ⟨_, _, rfl, hfits, hcare⟩

theorem fits (h : Describes C m (l :: ctx) f) : l.Fits m f := by
  cases h with
  | program _ _ hfits | call _ hfits | inner _ hfits => exact hfits

theorem careful (h : Describes C m (l :: ctx) f) : l.Careful C := by
  cases h with
  | program _ _ _ hcare | call _ _ hcare | inner _ _ hcare => exact hcare

theorem lt (h : Describes C m ctx f) : f < m.frames.size := by
  obtain ⟨l, ctx', -, hfits, -⟩ := h.head
  exact hfits.lt

/-- Only declarations of the innermost scope may be made in its frame, and none in older ones. -/
theorem grows (h : Describes C m ctx f) (hgrows : m.Grows d m')
    (hd : ∀ i ≤ f, ∀ x isMutable, d i x isMutable →
      i = f ∧ ∀ l ∈ ctx.head?, x ∈ l.scope.lexicalNames) : Describes C m' ctx f := by
  induction h with
  | @program l f hprogram hfunction hfits hcare =>
      exact .program hprogram hfunction
        (hfits.grows hgrows fun x b hx => (hd f (Nat.le_refl f) x b hx).2 l rfl) hcare
  | @call l ctx f f' hfunction hfits hcare hlt hcaller ih =>
      refine .call hfunction
        (hfits.grows hgrows fun x b hx => (hd f (Nat.le_refl f) x b hx).2 l rfl) hcare hlt
        (ih fun i hi x b hx => ?_)
      have hif := Nat.lt_of_le_of_lt hi hlt
      exact absurd (hd i (Nat.le_of_lt hif) x b hx).1 (Nat.ne_of_lt hif)
  | @inner l l' ctx f f' hblock hfits hcare hvars hlt hparent houter ih =>
      refine .inner hblock
        (hfits.grows hgrows fun x b hx => (hd f (Nat.le_refl f) x b hx).2 l rfl) hcare hvars hlt
        ((hgrows.parent f hfits.lt).trans hparent) (ih fun i hi x b hx => ?_)
      have hif := Nat.lt_of_le_of_lt hi hlt
      exact absurd (hd i (Nat.le_of_lt hif) x b hx).1 (Nat.ne_of_lt hif)

theorem grows_nowhere (h : Describes C m ctx f) (hgrows : m.Grows nowhere m') :
    Describes C m' ctx f :=
  h.grows hgrows fun _ _ _ _ hd => hd.elim

theorem repeating (h : Describes C m ctx f) {body : Stmt} (hbody : C.repeats body) :
    Describes C m (ctx.repeating body) f := by
  have hcareful {l : Level} (hcare : l.Careful C) :
      Level.Careful C { l with repeated := body :: l.repeated } :=
    ⟨List.forall_mem_cons.mpr ⟨hbody, hcare.repeats⟩, hcare.catches, hcare.starts⟩
  cases h with
  | program hprogram hfunction hfits hcare =>
      exact .program hprogram hfunction (hfits.repeating body) (hcareful hcare)
  | call hfunction hfits hcare hlt hcaller =>
      exact .call hfunction (hfits.repeating body) (hcareful hcare) hlt hcaller
  | inner hblock hfits hcare hvars hlt hparent houter =>
      exact .inner hblock (hfits.repeating body) (hcareful hcare) hvars hlt hparent houter

end Describes

/-- The scope `l` with the frame `i` is one of the activation that has come to the frame `f`: of the
function that is running there, or of the program. -/
inductive Activation (m : Memory) : Context → FrameRef → Level → FrameRef → Prop where
  | here {l : Level} {ctx : Context} {f : FrameRef} : Activation m (l :: ctx) f l f
  | outer {l l' : Level} {ctx : Context} {f f' i : FrameRef} (hblock : l.scope.isFunction = false)
      (hparent : (m.frameAt f).parent = some f') (h : Activation m ctx f' l' i) :
      Activation m (l :: ctx) f l' i

namespace Describes

variable {C : Care} {m : Memory} {ctx : Context} {f g : FrameRef} {l : Level} {x : String}

/-- The frame of the activation itself is around all that runs in it. -/
theorem own (h : Describes C m ctx f) :
    ∃ l i, Activation m ctx f l i ∧ l.scope.isFunction = true ∧ l.Fits m i ∧ m.Encloses i f := by
  induction h with
  | program _ hfunction hfits _ => exact ⟨_, _, .here, hfunction, hfits, .here⟩
  | call hfunction hfits _ _ _ _ => exact ⟨_, _, .here, hfunction, hfits, .here⟩
  | inner hblock _ _ _ _ hparent _ ih =>
      obtain ⟨l, i, hl, hfunction, hfits, hencloses⟩ := ih
      exact ⟨l, i, .outer hblock hparent hl, hfunction, hfits, .outer hparent hencloses⟩

theorem fits_of_mem (h : Describes C m ctx f) (hl : l ∈ ctx) : ∃ i, l.Fits m i := by
  induction h with
  | program _ _ hfits _ => exact ⟨_, List.mem_singleton.mp hl ▸ hfits⟩
  | call _ hfits _ _ _ ih | inner _ hfits _ _ _ _ _ ih =>
      rcases List.mem_cons.mp hl with rfl | hl
      · exact ⟨_, hfits⟩
      · exact ih hl

theorem careful_of_mem (h : Describes C m ctx f) (hl : l ∈ ctx) : l.Careful C := by
  induction h with
  | program _ _ _ hcare => exact List.mem_singleton.mp hl ▸ hcare
  | call _ _ hcare _ _ ih | inner _ _ hcare _ _ _ _ ih =>
      rcases List.mem_cons.mp hl with rfl | hl
      · exact hcare
      · exact ih hl

/-- A `var` name is found in the frame of the activation, or in that of a catch clause with that
parameter; and there it may be assigned, unless it is a predefined constant. -/
theorem resolve?_varName (hm : m.Rooted g) (h : Describes C m ctx f)
    (hx : ∀ l ∈ ctx.head?, x ∈ l.scope.varNames) :
    ∃ l i, Activation m ctx f l i ∧ m.resolve? f x = some i ∧
      (l.scope.isFunction = true ∨ l.caught = some x) ∧
      ∀ v, m.bindingAt? i x = some ⟨v, false⟩ → l.isProgram = true ∧ x ∈ Memory.constants := by
  have hconstant {l : Level} {i : FrameRef} (hfits : l.Fits m i) (hx : x ∈ l.scope.varNames)
      (v : Value) (hb : m.bindingAt? i x = some ⟨v, false⟩) :
      l.isProgram = true ∧ x ∈ Memory.constants :=
    (hfits.constant x v hb).resolve_left fun hlexical => (hfits.distinct.2 x hlexical).2.2 hx
  induction h with
  | @program l f _ hfunction hfits _ =>
      have hbound := hfits.hoisted hfunction x (hx l rfl)
      exact ⟨l, f, .here, by rw [hm.resolve?_eq, if_pos hbound], .inl hfunction,
        hconstant hfits (hx l rfl)⟩
  | @call l ctx f f' hfunction hfits _ _ _ _ =>
      have hbound := hfits.hoisted hfunction x (hx l rfl)
      exact ⟨l, f, .here, by rw [hm.resolve?_eq, if_pos hbound], .inl hfunction,
        hconstant hfits (hx l rfl)⟩
  | @inner l l' ctx f f' hblock hfits _ hvars _ hparent _ ih =>
      rw [hm.resolve?_eq]
      cases hbound : m.isDeclaredHere f x with
      | true =>
          have hprogram : l.isProgram = false := by
            rw [← Bool.not_eq_true, ← hfits.isProgram, hparent]
            exact Option.some_ne_none f'
          exact ⟨l, f, .here, if_pos rfl,
            .inr (hfits.caught_of_varName hblock hprogram (hx l rfl) hbound),
            hconstant hfits (hx l rfl)⟩
      | false =>
          obtain ⟨l'', i, hl, hresolve, hrest⟩ :=
            ih fun l'' hl => Option.some.inj hl ▸ hvars (hx l rfl)
          exact ⟨l'', i, .outer hblock hparent hl, by simpa [hparent] using hresolve, hrest⟩

end Describes

end SmallScript
