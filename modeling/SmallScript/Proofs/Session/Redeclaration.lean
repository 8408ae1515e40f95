import SmallScript.Proofs.Session.Scoping
import Mathlib

namespace SmallScript

open Declares Eval Early

/-- The parameter of a catch clause is neither declared by its body nor the name of a function
there. -/
def Care.parameters : Care where
  repeats _ := True
  catches param body := param ∉ (declaredBy body).map Prod.fst ∧ param ∉ hoisted body
  starts _ := True

/-- No function that is hoisted in the scope takes the place of a `let` or `const` name, or of the
parameter of the catch clause. -/
def Level.Tidy (l : Level) : Prop :=
  ∀ x ∈ hoisted l.scope.body, x ∉ l.scope.lexicalNames ∧ l.caught ≠ some x

/-- The name `x` may be declared in the frame of the scope. It has one declaration in all the scope,
parameters and, for a program, the declarations of the session counted; so what it replaces is a
global without a declaration, or its own binding from an earlier pass of a loop. -/
structure Level.Undisputed (l : Level) (m : Memory) (f : FrameRef) (x : String) : Prop where
  fits : l.Fits m f
  once : l.names.count x = 1
  bound : m.isDeclaredHere f x = true →
    l.isProgram = true ∨ ∃ body ∈ l.repeated, x ∈ body.declares.map Prod.fst

/-- The open scopes describe the frames, and none has a hoisted function in the wrong place. -/
structure WellDescribed (m : Memory) (ctx : Context) (f : FrameRef) : Prop where
  describes : Describes .parameters m ctx f
  tidy : ∀ l ∈ ctx, l.Tidy

namespace Eval

/-- The body of a catch clause starts, behind the hoisting of its functions, with the parameter bound
to the value that was caught. -/
def CatchStarts (E : Evaluator) (f : FrameRef) (param : String) (body : List Stmt) : Prop :=
  ∀ (e : Fault) (s : State), ∃ s',
    evalHandler E f param body e s = runInOrder E s.memory.frames.size none body s' ∧
      s'.memory.bindingAt? s.memory.frames.size param =
        some ⟨(e.toValue (s.withFrame f false).memory).1, true⟩

variable {f g : FrameRef} {x param : String} {body : List Stmt}

theorem evalHandler_apply (E : Evaluator) (f : FrameRef) (param : String) (body : List Stmt)
    (e : Fault) (s : State) :
    ∃ s₁, evalHandler E f param body e s = runBody E s.memory.frames.size body s₁ ∧
      s₁.memory = (e.toValue (s.withFrame f false).memory).2.declare s.memory.frames.size param
        (e.toValue (s.withFrame f false).memory).1 true :=
  ⟨⟨_, s.output, s.writes, s.depth⟩, rfl, rfl⟩

/-- When the statements of a catch clause start, the parameter is bound to the value that was caught,
or to the function of that name that the body declares. -/
theorem evalHandler_starts (E : Evaluator) (f : FrameRef) (param : String) (body : List Stmt)
    (e : Fault) (s : State) :
    ∃ s', evalHandler E f param body e s = runInOrder E s.memory.frames.size none body s' ∧
      (param ∉ hoisted body → s'.memory.bindingAt? s.memory.frames.size param =
        some ⟨(e.toValue (s.withFrame f false).memory).1, true⟩) ∧
      (param ∈ hoisted body →
        ∃ c, s'.memory.bindingAt? s.memory.frames.size param = some ⟨.closure c, true⟩) := by
  obtain ⟨s₁, hrun, hmemory⟩ := evalHandler_apply E f param body e s
  have hlt : s.memory.frames.size < (e.toValue (s.withFrame f false).memory).2.frames.size := by
    rw [Memory.frames_toValue e]
    exact (s.opens_withFrame f false).lt
  obtain ⟨s', hs', hkeeps, hbinds⟩ := hoistFunctions_done body
    (by rw [hmemory, Memory.size_declare]; exact hlt)
  refine ⟨s', ?_, fun hparam => ?_, hbinds param⟩
  · rw [hrun, runBody, Effect.bind_apply, hs']
    rfl
  · rw [hkeeps param hparam, hmemory, Memory.bindingAt?_declare hlt, if_pos ⟨rfl, rfl⟩]

theorem catchStarts (E : Evaluator) (f : FrameRef) (hparam : param ∉ hoisted body) :
    CatchStarts E f param body := by
  intro e s
  obtain ⟨s', hrun, hcaught, -⟩ := evalHandler_starts E f param body e s
  exact ⟨s', hrun, hcaught hparam⟩

end Eval

variable {m : Memory} {ctx : Context} {l : Level} {f g i : FrameRef} {x : String}

theorem Level.Fits.tidy (h : l.Fits m i) (hcare : l.Careful .parameters) : l.Tidy := by
  intro x hx
  have hfunction : x ∈ l.scope.functionNames :=
    (mem_filterMap_function _ _).mpr (function_mem_of_hoisted hx)
  exact ⟨fun hlexical => (h.distinct.2 x hlexical).2.1 hfunction,
    fun hcaught => (hcare.catches x hcaught).2 hx⟩

theorem Describes.wellDescribed (h : Describes .parameters m ctx f) : WellDescribed m ctx f := by
  refine ⟨h, fun l hl => ?_⟩
  obtain ⟨i, hfits⟩ := h.fits_of_mem hl
  exact hfits.tidy (h.careful_of_mem hl)

theorem Eval.ScopesReady.undisputed {ts : List Stmt} (h : ScopesReady .parameters ctx f ts m)
    {isMutable : Bool} (hx : (x, isMutable) ∈ declaredBy ts) :
    ∃ l ∈ ctx.head?, l.Undisputed m f x := by
  obtain ⟨l, ctx', rfl, hfits, hcare, hready⟩ := h.head
  have hcaught : l.caught ≠ some x := by
    intro hcaught
    have hlexical := hready.sub (lexical_mem_of_declaredBy hx)
    rw [← mem_filterMap_lexical, filterMap_lexical_declsOf] at hlexical
    exact (hcare.catches x hcaught).1 hlexical
  refine ⟨l, rfl, hfits, hfits.count_names (hready.lexicalNames hx) hcaught, fun hbound => ?_⟩
  exact (hready.bound x isMutable hx hbound).resolve_left hcaught

/-- The moments at which the scopes do not describe the frames, or a `let` or `const` declaration is
about to replace a binding of another one, or a catch clause would start without its parameter. -/
def disputes : Moments where
  expr ctx _ f _ s := ¬WellDescribed s.memory ctx f
  stmt ctx E f t s :=
    ¬(WellDescribed s.memory ctx f ∧
      (∀ kind ds x v s', t = .decl kind ds → kind ≠ .var → Stores E f kind x v s' ds s →
        ∃ l ∈ ctx.head?, l.Undisputed s'.memory f x) ∧
      ∀ body param handler finalizer, t = .tryCatch body (some (param, handler)) finalizer →
        CatchStarts E f param handler)

theorem Eval.disputes_excludes (host : Host) (g : FrameRef) :
    (Discipline.scoping .parameters g).Excludes host disputes where
  gains _ := trivial
  expr _ _ _ _ _ _ _ hhere h := h hhere.wellDescribed
  stmt n ctx p f t s ht hs hready h := by
    refine h ⟨hready.describes.wellDescribed, ?_, ?_⟩
    · rintro kind ds x v s' rfl hkind hstores
      obtain ⟨-, init, post, hready'⟩ := Discipline.scoping_stores ht hs hready hstores
      obtain ⟨isMutable, hx⟩ := mem_declares_of_store hkind x init post
      exact hready'.undisputed hx
    · rintro body param handler finalizer rfl
      exact catchStarts _ f ht.self.2.2

namespace Session

variable {host : Host} {fuel : Nat} {s : Session}

/-- In the run of a text the scopes of the analyzer describe the frames at every moment, and no
declaration replaces what another one has put into the same frame. -/
theorem scopes_describe_frames (fuel : Nat) (interactive : Bool) (earlier : List Entry)
    (source : String) (h : evalAll host fuel earlier (start interactive) = some s)
    (hcare : Care.parameters.ObservedIn (source :: earlier)) :
    ¬s.MeetsAt host fuel disputes source := by
  obtain ⟨hsource, hearlier⟩ := Care.observedIn_cons.mp hcare
  have hs := evalAll_scoped earlier (start_scoped .parameters interactive) hearlier h
  exact hs.not_meetsAt (disputes_excludes host s.global) hsource

/-- A catch clause that declares a name of its own. -/
theorem scopes_describe_frames_catch : ∃ s,
    evalAll ⟨8, fun _ => none⟩ 20 ["let a = 'b'"] (start false) = some s ∧
      ¬s.MeetsAt ⟨8, fun _ => none⟩ 20 disputes "try { throw a } catch (e) { let b = e }" := by
  have hsome : (evalAll ⟨8, fun _ => none⟩ 20 ["let a = 'b'"] (start false)).isSome = true := by
    cbv
  have hfirst : Program.parse "let a = 'b'" = .ok [.decl .letDecl [("a", some (.string "b"))]] := by
    cbv
  have hsecond : Program.parse "try { throw a } catch (e) { let b = e }" =
      .ok [.tryCatch [.throw (.ident "a")]
        (some ("e", [.decl .letDecl [("b", some (.ident "e"))]])) none] := by cbv
  have hcare : Care.parameters.ObservedIn
      ["try { throw a } catch (e) { let b = e }", "let a = 'b'"] := by
    refine Care.observedIn_cons.mpr ⟨Care.observedIn_of_parse hsecond ⟨trivial, ?_⟩,
      Care.observedIn_of_parse hfirst ⟨trivial, ?_⟩⟩
    · simp [Care.part, Care.parameters, stmtsParts, stmtParts, declaratorParts, maybeExprParts,
        exprParts, Stmt.declares, hoisted]
    · simp [Care.part, stmtsParts, stmtParts, declaratorParts, maybeExprParts, exprParts]
  obtain ⟨s, hs⟩ := Option.isSome_iff_exists.mp hsome
  exact ⟨s, hs, scopes_describe_frames 20 false _ _ hs hcare⟩

end Session

end SmallScript
