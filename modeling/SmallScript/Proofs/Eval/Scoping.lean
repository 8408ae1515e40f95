import SmallScript.Proofs.Early.Acceptance
import SmallScript.Proofs.Eval.Description
import SmallScript.Proofs.Eval.Tracking.Program
import Mathlib

namespace SmallScript

open Declares Early

/-- The statements are some of the innermost scope, and their declarations have not been made. -/
structure Level.Ready (l : Level) (f : FrameRef) (ts : List Stmt) (m : Memory) : Prop where
  sub : decls.declsOf ts ⊆ decls.declsOf l.scope.body
  nodup : ((declaredBy ts).map Prod.fst).Nodup
  bound : ∀ x isMutable, (x, isMutable) ∈ declaredBy ts → m.isDeclaredHere f x = true →
    l.caught = some x ∨ l.isProgram = true ∨ ∃ body ∈ l.repeated, x ∈ body.declares.map Prod.fst
  constant : ∀ x isMutable v, (x, isMutable) ∈ declaredBy ts →
    m.bindingAt? f x = some ⟨v, false⟩ →
    l.isProgram = true ∧ x ∈ Memory.constants ∨ ∃ body ∈ l.repeated, (x, false) ∈ body.declares

namespace Level.Ready

variable {l : Level} {m m' : Memory} {f : FrameRef} {t : Stmt} {ts us : List Stmt} {x : String}

theorem lexicalNames (h : l.Ready f ts m) {isMutable : Bool}
    (hx : (x, isMutable) ∈ declaredBy ts) : x ∈ l.scope.lexicalNames :=
  List.mem_append_right _
    ((mem_filterMap_lexical _ _).mpr (h.sub (lexical_mem_of_declaredBy hx)))

theorem varNames (h : l.Ready f ts m) (hx : .var x ∈ decls.declsOf ts) : x ∈ l.scope.varNames :=
  (mem_varNames_iff _ _).mpr (h.sub hx)

theorem of_sublist (h : l.Ready f ts m) (hsub : decls.declsOf us ⊆ decls.declsOf ts)
    (hdeclares : (declaredBy us).Sublist (declaredBy ts)) : l.Ready f us m where
  sub := List.Subset.trans hsub h.sub
  nodup := h.nodup.sublist (hdeclares.map _)
  bound x isMutable hx := h.bound x isMutable (hdeclares.subset hx)
  constant x isMutable v hx := h.constant x isMutable v (hdeclares.subset hx)

theorem grows (h : l.Ready f ts m) (hfits : l.Fits m f) {xs : List (String × Bool)}
    (hgrows : m.Grows (inFrame f xs) m')
    (hxs : ∀ x isMutable, (x, isMutable) ∈ declaredBy ts → x ∉ xs.map Prod.fst) :
    l.Ready f ts m' where
  sub := h.sub
  nodup := h.nodup
  bound x isMutable hx hbound := by
    obtain ⟨b', hb'⟩ := Memory.isDeclaredHere_iff.mp hbound
    have hchange := hgrows.change f hfits.lt x
    have hbefore := h.bound x isMutable hx
    rw [Memory.isDeclaredHere_iff] at hbefore
    rw [hb'] at hchange
    generalize m.bindingAt? f x = b at hchange hbefore
    cases hchange with
    | same => exact hbefore ⟨b', rfl⟩
    | written v w => exact hbefore ⟨_, rfl⟩
    | gained v hglobal => exact .inr (.inl (hfits.isProgram.mp hglobal))
    | declared _ v isMutable' hd => exact absurd (List.mem_map_of_mem hd.2) (hxs x isMutable hx)
  constant x isMutable v hx hbound := by
    have hchange := hgrows.change f hfits.lt x
    have hbefore := h.constant x isMutable v hx
    rw [hbound] at hchange
    generalize m.bindingAt? f x = b at hchange hbefore
    cases hchange with
    | same => exact hbefore rfl
    | declared _ _ _ hd => exact absurd (List.mem_map_of_mem hd.2) (hxs x isMutable hx)

theorem tail (h : l.Ready f (t :: ts) m) (hfits : l.Fits m f)
    (hgrows : m.Grows (inFrame f t.declares) m') : l.Ready f ts m' := by
  have hnodup := h.nodup
  rw [declaredBy_cons, List.map_append, List.nodup_append] at hnodup
  have hrest : l.Ready f ts m :=
    h.of_sublist (by simp [decls.declsOf]) (List.sublist_append_right ..)
  refine hrest.grows hfits hgrows fun x isMutable hx hdeclared => ?_
  exact hnodup.2.2 x hdeclared x (List.mem_map_of_mem hx) rfl

/-- A body is ready again if it runs in the same frame. -/
theorem again (h : l.Ready f [t] m) (hfits : l.Fits m f)
    (hgrows : m.Grows (inFrame f t.declares) m') (hrepeated : t ∈ l.repeated) :
    l.Ready f [t] m' where
  sub := h.sub
  nodup := h.nodup
  bound x isMutable hx _ := by
    refine .inr (.inr ⟨t, hrepeated, List.mem_map_of_mem (?_ : (x, isMutable) ∈ _)⟩)
    simpa [declaredBy] using hx
  constant x isMutable v hx hbound := by
    have hchange := hgrows.change f hfits.lt x
    have hbefore := h.constant x isMutable v hx
    rw [hbound] at hchange
    generalize m.bindingAt? f x = b at hchange hbefore
    cases hchange with
    | same => exact hbefore rfl
    | declared _ _ _ hd => exact .inr ⟨t, hrepeated, hd.2⟩

end Level.Ready

namespace Stmt.Opens

variable {t : Stmt} {l : Level}

theorem isFunction (h : t.Opens l) : l.scope.isFunction = false := by
  cases h <;> rfl

theorem isProgram (h : t.Opens l) : l.isProgram = false := by
  cases h <;> rfl

theorem lexical (h : t.Opens l) : l.scope.lexical = [] := by
  cases h <;> rfl

theorem params (h : t.Opens l) : l.scope.params = [] := by
  cases h <;> rfl

theorem var_mem (h : t.Opens l) {x : String} (hx : .var x ∈ decls.declsOf l.scope.body) :
    .var x ∈ decls t := by
  cases h with
  | block body =>
      rw [decls]
      exact List.mem_filter.mpr ⟨hx, rfl⟩
  | attempt body handler finalizer =>
      have hbody : .var x ∈ decls.declsOf body := hx
      rcases handler with _ | ⟨param, h⟩ <;> cases finalizer <;> simp [decls, hbody, Decl.isVar]
  | handler body param h finalizer =>
      have hbody : .var x ∈ decls.declsOf h := hx
      cases finalizer <;> simp [decls, hbody, Decl.isVar]
  | finalizer body handler last =>
      have hbody : .var x ∈ decls.declsOf last := hx
      rcases handler with _ | ⟨param, h⟩ <;> simp [decls, hbody, Decl.isVar]
  | loop init test update body =>
      have hbody : .var x ∈ decls.declsOf (init.toList ++ [body]) := hx
      cases init with
      | none => simpa [decls, decls.declsOf, Decl.isVar] using hbody
      | some t => simpa [decls, decls.declsOf, Decl.isVar] using hbody

theorem careful (h : t.Opens l) {C : Care} {p : Place} (ht : C.part (.stmt p t)) :
    l.Careful C := by
  refine ⟨?_, ?_, fun hprogram => ?_⟩
  · cases h with
    | loop init test update body =>
        intro body' hbody'
        by_cases hnames : Eval.loopNames init = []
        · simp only [Level.loop, hnames, List.isEmpty_nil, if_true, List.mem_singleton] at hbody'
          exact hbody' ▸ ht hnames
        · simp [Level.loop, hnames] at hbody'
    | block | attempt | handler | finalizer =>
        intro body' hbody'
        cases hbody'
  · cases h with
    | handler body param h finalizer =>
        intro x hx
        cases hx
        exact ht
    | block | attempt | finalizer | loop =>
        intro x hx
        cases hx
  · rw [h.isProgram] at hprogram
    cases hprogram

end Stmt.Opens

namespace Level

variable {C : Care} {l : Level} {m : Memory} {i f : FrameRef} {pre ts : List Stmt}

theorem Starts.ready {t : Stmt} (hopens : t.Opens l) (hdistinct : l.scope.Distinct)
    (hapart : l.scope.Apart) (hbody : l.scope.body = pre ++ ts) (hi : i < m.frames.size)
    (hboundary : (m.frameAt i).isBoundary = false) (hparent : (m.frameAt i).parent = some f)
    (hstarts : ∀ x b, m.bindingAt? i x = some b → l.Starts pre x b.isMutable) :
    l.Fits m i ∧ l.Ready i ts m := by
  have hlexical {us : List Stmt} (hus : decls.declsOf us ⊆ decls.declsOf l.scope.body) {x : String}
      {b : Bool} (hx : (x, b) ∈ declaredBy us) : x ∈ l.scope.lexicalNames :=
    List.mem_append_right _
      ((mem_filterMap_lexical _ _).mpr (hus (lexical_mem_of_declaredBy hx)))
  have hpre : decls.declsOf pre ⊆ decls.declsOf l.scope.body := by
    simp [hbody, declsOf_append]
  have hts : decls.declsOf ts ⊆ decls.declsOf l.scope.body := by
    simp [hbody, declsOf_append]
  have hnodup : ((declaredBy pre ++ declaredBy ts).map Prod.fst).Nodup := by
    have h := hdistinct.1
    rw [Scope.lexicalNames, hopens.lexical, List.nil_append, filterMap_lexical_declsOf, hbody,
      declaredBy_append] at h
    exact h
  rw [List.map_append, List.nodup_append] at hnodup
  have hfunction {x : String} (hx : x ∈ hoisted l.scope.body) : x ∈ l.scope.functionNames :=
    (mem_filterMap_function _ _).mpr (function_mem_of_hoisted hx)
  refine ⟨⟨hdistinct, hapart, fun _ => hopens.params, hi, hboundary.trans hopens.isFunction.symm,
    ?_, ?_, ?_, ?_⟩, ⟨hts, hnodup.2.1, ?_, ?_⟩⟩
  · rw [hparent, hopens.isProgram]
    simp
  · intro _ x hx
    obtain ⟨b, hb⟩ := Memory.isDeclaredHere_iff.mp hx
    rcases hstarts x b hb with ⟨-, hcaught | hhoisted⟩ | hdeclared
    · exact List.mem_append_left _ (by simp [hcaught])
    · exact functionNames_subset_names (hfunction hhoisted)
    · exact lexicalNames_subset_names (hlexical hpre hdeclared)
  · intro h
    rw [hopens.isFunction] at h
    cases h
  · intro x v hx
    rcases hstarts x _ hx with ⟨hmutable, -⟩ | hdeclared
    · cases hmutable
    · exact .inl (hlexical hpre hdeclared)
  · intro x isMutable hx hbound
    obtain ⟨b, hb⟩ := Memory.isDeclaredHere_iff.mp hbound
    rcases hstarts x b hb with ⟨-, hcaught | hhoisted⟩ | hdeclared
    · exact .inl hcaught
    · exact absurd (hfunction hhoisted) (hdistinct.2 x (hlexical hts hx)).2.1
    · exact absurd rfl (hnodup.2.2 x (List.mem_map_of_mem hdeclared) x (List.mem_map_of_mem hx))
  · intro x isMutable v hx hb
    rcases hstarts x _ hb with ⟨hmutable, -⟩ | hdeclared
    · cases hmutable
    · exact absurd rfl (hnodup.2.2 x (List.mem_map_of_mem hdeclared) x (List.mem_map_of_mem hx))

/-- The scope of a function describes its frame at the start of a call, and its statements are
ready. -/
theorem ready_call {definition : Function}
    (hdistinct : (Scope.function definition.params definition.body).Distinct)
    (hi : i < m.frames.size) (hboundary : (m.frameAt i).isBoundary = true)
    (hparent : (m.frameAt i).parent = some f)
    (hbound : ∀ x b, m.bindingAt? i x = some b → b.isMutable = true ∧
      (x ∈ definition.params ∨ x ∈ Eval.varNames.varNamesOf definition.body ∨
        x ∈ hoisted definition.body))
    (hhoisted : ∀ x ∈ Eval.varNames.varNamesOf definition.body, m.isDeclaredHere i x = true) :
    (Level.call definition).Fits m i ∧
      (Level.call definition).Ready i definition.body m := by
  have hlexical : (Level.call definition).scope.lexicalNames =
      (declaredBy definition.body).map Prod.fst :=
    filterMap_lexical_declsOf definition.body
  have hfunction {x : String} (hx : x ∈ hoisted definition.body) :
      x ∈ (Level.call definition).scope.functionNames :=
    (mem_filterMap_function _ _).mpr (function_mem_of_hoisted hx)
  refine ⟨⟨hdistinct, ?_, ?_, hi, hboundary, ?_, ?_, fun _ => hhoisted, ?_⟩,
    ⟨List.Subset.refl _, hlexical ▸ hdistinct.1, ?_, ?_⟩⟩
  · intro h
    cases h
  · intro h
    cases h
  · rw [hparent]
    simp [Level.call]
  · intro _ x hx
    obtain ⟨b, hb⟩ := Memory.isDeclaredHere_iff.mp hx
    rcases (hbound x b hb).2 with hparam | hvar | hname
    · exact List.mem_append_right _ (List.mem_append_left _ hparam)
    · simp only [names, Level.call, Scope.function, if_true, List.mem_append]
      exact .inr (.inr (.inr (.inr hvar)))
    · exact functionNames_subset_names (hfunction hname)
  · intro x v hx
    cases (hbound x _ hx).1
  · intro x isMutable hx hdeclared
    obtain ⟨b, hb⟩ := Memory.isDeclaredHere_iff.mp hdeclared
    have hmem : x ∈ (Level.call definition).scope.lexicalNames :=
      hlexical ▸ List.mem_map_of_mem hx
    obtain ⟨hparams, hfunctions, hvars⟩ := hdistinct.2 x hmem
    rcases (hbound x b hb).2 with hparam | hvar | hname
    · exact absurd hparam hparams
    · exact absurd hvar hvars
    · exact absurd (hfunction hname) hfunctions
  · intro x isMutable v _ hb
    cases (hbound x _ hb).1

end Level

namespace Eval

/-- Where statements are about to run the open scopes describe the frames, and they are ready. -/
structure ScopesReady (C : Care) (ctx : Context) (f : FrameRef) (ts : List Stmt) (m : Memory) :
    Prop where
  describes : Describes C m ctx f
  ready : ∀ l ∈ ctx.head?, l.Ready f ts m

namespace ScopesReady

variable {C : Care} {ctx : Context} {f : FrameRef} {t : Stmt} {ts us : List Stmt}
  {m m' : Memory} {xs : List (String × Bool)}

theorem intro {l : Level} (h : Describes C m (l :: ctx) f) (hready : l.Ready f ts m) :
    ScopesReady C (l :: ctx) f ts m :=
  ⟨h, fun _ hl => Option.some.inj hl ▸ hready⟩

theorem head (h : ScopesReady C ctx f ts m) :
    ∃ l ctx', ctx = l :: ctx' ∧ l.Fits m f ∧ l.Careful C ∧ l.Ready f ts m := by
  obtain ⟨l, ctx', rfl, hfits, hcare⟩ := h.describes.head
  exact ⟨l, ctx', rfl, hfits, hcare, h.ready l rfl⟩

theorem of_sublist (h : ScopesReady C ctx f ts m)
    (hsub : decls.declsOf us ⊆ decls.declsOf ts)
    (hdeclares : (declaredBy us).Sublist (declaredBy ts)) : ScopesReady C ctx f us m :=
  ⟨h.describes, fun l hl => (h.ready l hl).of_sublist hsub hdeclares⟩

theorem describes_grows (h : ScopesReady C ctx f ts m) (hxs : xs ⊆ declaredBy ts)
    (hgrows : m.Grows (inFrame f xs) m') : Describes C m' ctx f :=
  h.describes.grows hgrows fun _ _ _ _ hd =>
    ⟨hd.1, fun l hl => (h.ready l hl).lexicalNames (hxs hd.2)⟩

theorem grows_nowhere (h : ScopesReady C ctx f ts m) (hgrows : m.Grows nowhere m') :
    ScopesReady C ctx f ts m' := by
  obtain ⟨l, ctx', rfl, hfits, -, hready⟩ := h.head
  have hempty : m.Grows (inFrame f []) m' := hgrows.of_nowhere
  refine .intro (h.describes.grows_nowhere hgrows) ?_
  exact hready.grows hfits hempty fun _ _ _ hx => by cases hx

theorem tail (h : ScopesReady C ctx f (t :: ts) m)
    (hgrows : m.Grows (inFrame f t.declares) m') : ScopesReady C ctx f ts m' := by
  obtain ⟨l, ctx', rfl, hfits, -, hready⟩ := h.head
  exact .intro (h.describes_grows (List.subset_append_left ..) hgrows) (hready.tail hfits hgrows)

theorem split {kind : DeclKind} {ds es : List (String × Option Expr)}
    (h : ScopesReady C ctx f [.decl kind (ds ++ es)] m) :
    ScopesReady C ctx f [.decl kind ds, .decl kind es] m := by
  refine h.of_sublist ?_ (by simp [Stmt.declares_decl_append])
  cases kind <;> simp [decls.declsOf, decls]

theorem repeating (h : ScopesReady C ctx f [t] m) (hcare : C.repeats t)
    (hgrows : m.Grows (inFrame f t.declares) m') :
    ScopesReady C (ctx.repeating t) f [t] m' := by
  have hdescribes := (h.describes_grows (by simp) hgrows).repeating hcare
  obtain ⟨l, ctx', rfl, hfits, -, hready⟩ := h.head
  have hready' : Level.Ready { l with repeated := t :: l.repeated } f [t] m := by
    refine ⟨hready.sub, hready.nodup, fun x isMutable hx hb => ?_, fun x isMutable v hx hb => ?_⟩
    · rcases hready.bound x isMutable hx hb with h | h | ⟨body, hbody, hmem⟩
      · exact .inl h
      · exact .inr (.inl h)
      · exact .inr (.inr ⟨body, List.mem_cons_of_mem _ hbody, hmem⟩)
    · rcases hready.constant x isMutable v hx hb with h | ⟨body, hbody, hmem⟩
      · exact .inl h
      · exact .inr ⟨body, List.mem_cons_of_mem _ hbody, hmem⟩
  exact .intro hdescribes
    (hready'.again (hfits.repeating t) hgrows (List.mem_cons_self ..))

/-- A `for` loop without names of its own runs all passes in its frame. -/
theorem again {init : Option Stmt} (h : ScopesReady C (.loop init t :: ctx) f [t] m)
    (hnames : loopNames init = []) (hgrows : m.Grows (inFrame f t.declares) m') :
    ScopesReady C (.loop init t :: ctx) f [t] m' := by
  refine .intro (h.describes_grows (by simp) hgrows) ?_
  refine (h.ready _ rfl).again h.describes.fits hgrows ?_
  simp [Level.loop, hnames]

theorem opens {l : Level} {p : Place} {pre : List Stmt} {s s' : State} {i : FrameRef}
    (h : ScopesReady C ctx f [t] s.memory) (hopens : t.Opens l) (ht : C.part (.stmt p t))
    (hvalid : Early.Valid (.scope l.scope)) (hbody : l.scope.body = pre ++ ts)
    (hframe : s.Opens f false i s')
    (hstarts : ∀ x b, s'.memory.bindingAt? i x = some b → l.Starts pre x b.isMutable) :
    ScopesReady C (l :: ctx) i ts s'.memory := by
  obtain ⟨hdistinct, hapart⟩ := hvalid
  obtain ⟨hfits, hready⟩ := Level.Starts.ready hopens hdistinct hapart hbody hframe.lt
    hframe.isBoundary hframe.parent hstarts
  have hdescribes := h.describes.grows_nowhere hframe.memory
  have hlt : f < i := Nat.lt_of_lt_of_le h.describes.lt hframe.fresh
  obtain ⟨outer, ctx', rfl, -, -, houter⟩ := h.head
  refine .intro (.inner hopens.isFunction hfits (hopens.careful ht) (fun x hx => ?_) hlt
    hframe.parent hdescribes) hready
  refine houter.varNames ?_
  simpa [decls.declsOf] using hopens.var_mem ((mem_varNames_iff _ _).mp hx)

theorem call {definition : Function} {outer : FrameRef} {s s' : State} {i : FrameRef}
    (h : Describes C s.memory ctx f)
    (hvalid : Early.Valid (.scope (.function definition.params definition.body)))
    (hframe : s.Opens outer true i s')
    (hbound : ∀ x b, s'.memory.bindingAt? i x = some b → b.isMutable = true ∧
      (x ∈ definition.params ∨ x ∈ varNames.varNamesOf definition.body ∨
        x ∈ hoisted definition.body))
    (hhoisted : ∀ x ∈ varNames.varNamesOf definition.body,
      s'.memory.isDeclaredHere i x = true) :
    ScopesReady C (.call definition :: ctx) i definition.body s'.memory := by
  obtain ⟨hfits, hready⟩ := Level.ready_call hvalid.1 hframe.lt hframe.isBoundary hframe.parent
    hbound hhoisted
  have hcareful : (Level.call definition).Careful C := by
    refine ⟨fun body hbody => ?_, fun x hx => ?_, fun hprogram => ?_⟩
    · cases hbody
    · cases hx
    · cases hprogram
  exact .intro (.call rfl hfits hcareful (Nat.lt_of_lt_of_le h.lt hframe.fresh)
    (h.grows_nowhere hframe.memory)) hready

end ScopesReady

/-- Every tree is valid, as the analyzer has it, and observes the care `C`. -/
def Discipline.scoping (C : Care) (g : FrameRef) : Discipline where
  global := g
  gains _ := True
  ok x := Early.Valid x ∧ C.part x
  here ctx f s := Describes C s.memory ctx f
  ready ctx f ts s := ScopesReady C ctx f ts s.memory
  ok_empty := by
    refine ⟨⟨⟨List.nodup_nil, fun x hx => by cases hx⟩, fun h => by cases h⟩, trivial⟩
  here_lt h := h.lt
  here_grows h hgrows := h.grows_nowhere hgrows.memory
  ready_here h hgrows := h.describes_grows (List.Subset.refl _) hgrows.memory
  ready_grows h hgrows := h.grows_nowhere hgrows.memory
  ready_head h := h.of_sublist (by simp [decls.declsOf]) (by simp)
  ready_tail h hgrows := h.tail hgrows.memory
  ready_then {ctx p f c t e s} h _ := by
    refine h.of_sublist ?_ ?_
    · cases e <;> simp [decls.declsOf, decls]
    · cases e <;> simp [Stmt.declares]
  ready_else h _ := h.of_sublist (by simp [decls.declsOf, decls]) (by simp [Stmt.declares])
  ready_while h hok hgrows :=
    (h.of_sublist (by simp [decls.declsOf, decls]) (by simp [Stmt.declares])).repeating hok.2
      hgrows.memory
  ready_do h hok hgrows :=
    (h.of_sublist (by simp [decls.declsOf, decls]) (by simp [Stmt.declares])).repeating hok.2
      hgrows.memory
  ready_again h hnames hgrows := h.again hnames hgrows.memory
  ready_opens h hopens ht hscope hbody hframe _ hstarts _ :=
    h.opens hopens ht.2 hscope.1 hbody hframe hstarts
  ready_call h hscope hframe _ hbound hhoisted _ := .call h hscope.1 hframe hbound hhoisted

theorem mem_declares_of_store {kind : DeclKind} (hkind : kind ≠ .var) (x : String)
    (init : Option Expr) (ds : List (String × Option Expr)) :
    ∃ isMutable, (x, isMutable) ∈ declaredBy [.decl kind ((x, init) :: ds)] := by
  cases kind with
  | var => exact (hkind rfl).elim
  | letDecl => exact ⟨true, List.mem_cons_self ..⟩
  | constDecl => exact ⟨false, List.mem_cons_self ..⟩

namespace Discipline

variable {C : Care} {host : Host} {g f : FrameRef} {ctx : Context} {p : Place} {s s' : State}
  {n : Nat}

theorem scoping_exprIn {e : Expr} (he : (scoping C g).Good (exprParts e))
    (hs : (scoping C g).Holds s) (hhere : Describes C s.memory ctx f)
    (hend : (evalExpr host (evaluator host n) f e s).state? = some s') : s.Grows nowhere s' := by
  have hrelated := related_self (K := scoping C g) (fun _ => trivial) host n
  exact ((hrelated.exprIn he hs hhere fun _ _ => trivial).2 s' hend).2.grows

theorem scoping_stmtIn {t : Stmt} (ht : (scoping C g).Good (stmtParts p t))
    (hs : (scoping C g).Holds s) (hready : ScopesReady C ctx f [t] s.memory)
    (hend : (evalStmt (evaluator host n) f t s).state? = some s') :
    s.Grows (inFrame f t.declares) s' := by
  have hrelated := related_self (K := scoping C g) (fun _ => trivial) host n
  exact ((hrelated.stmtIn ht hs hready fun _ _ => trivial).2 s' hend).2.grows

theorem scoping_stores {kind : DeclKind} {x : String} {v : Option Value}
    {ds : List (String × Option Expr)} (ht : (scoping C g).Good (stmtParts p (.decl kind ds)))
    (hs : (scoping C g).Holds s) (hready : ScopesReady C ctx f [.decl kind ds] s.memory)
    (hstores : Stores (evaluator host n) f kind x v s' ds s) :
    (scoping C g).Holds s' ∧
      ∃ init post, ScopesReady C ctx f [.decl kind ((x, init) :: post)] s'.memory := by
  have hrelated := related_self (K := scoping C g) (fun _ => trivial) host n
  rw [stmtParts, good_cons] at ht
  have hhere (s' : State) (h' : s.Grows (inFrame f (Stmt.decl kind ds).declares) s') :
      (scoping C g).here ctx f s' :=
    hready.describes_grows (by simp) h'.memory
  obtain ⟨hs', pre, init, post, rfl, hgrows⟩ := hrelated.stores (fun _ => trivial) hstores ht.2 hs
    hhere (List.Subset.refl _)
  exact ⟨hs', init, post, hready.split.tail hgrows.memory⟩

end Discipline

end Eval

end SmallScript
