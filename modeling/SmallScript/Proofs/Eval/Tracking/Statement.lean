import SmallScript.Proofs.Eval.Tracking.Body
import Mathlib

namespace SmallScript.Eval

open Effect Declares

theorem loopNames_eq {init : Option Stmt} (h : loopNames init ≠ []) :
    loopNames init = declaredBy init.toList := by
  unfold loopNames at h ⊢
  split at h
  · simp [Stmt.declares]
  · simp [Stmt.declares]
  · exact (h rfl).elim

namespace Discipline

variable {K : Discipline} {host : Host} {d : Declares} {s : State} {f : FrameRef} {ctx : Context}
  {D : Context → Evaluator} {E : Evaluator}

namespace Related

theorem evalInit (h : K.Related D E) {init : Option Expr} (hinit : K.Good (maybeExprParts init))
    (hs : K.Holds s) (hhere : K.here ctx f s) :
    K.Tracks nowhere (evalInit (D ctx) f init) (evalInit E f init) s := by
  cases init with
  | none => exact tracks_pure hs none
  | some e =>
      simp only [Eval.evalInit, map_eq_pure_bind]
      exact (h.expr hinit hs hhere).bind fun v _ _ hs₁ _ => tracks_pure hs₁ (some v)

theorem tracks_store {kind : DeclKind} {x : String} {v : Option Value} (init : Option Expr)
    (hs : K.Holds s) (hf : f < s.memory.frames.size)
    (hx : ∀ w, kind = .var → v = some w → s.memory.resolve? f x = none → K.gains x) :
    K.Tracks (inFrame f (Stmt.decl kind [(x, init)]).declares) (store f kind x v)
      (store f kind x v) s := by
  cases kind with
  | var =>
      cases v with
      | none => exact tracks_pure hs ()
      | some w => exact tracks_assign hs hf x w (hx w rfl rfl)
  | letDecl | constDecl => exact tracks_declare hs hf _ ⟨rfl, List.mem_cons_self ..⟩

theorem evalDeclarators (h : K.Related D E) {kind : DeclKind} {ds : List (String × Option Expr)}
    {xs : List (String × Bool)} (hds : K.Good (declaratorParts ds)) (hs : K.Holds s)
    (hhere : ∀ s', s.Grows (inFrame f xs) s' → K.here ctx f s')
    (hxs : (Stmt.decl kind ds).declares ⊆ xs)
    (hgains : ∀ x v s', kind = .var → Stores E f kind x (some v) s' ds s →
      s'.memory.resolve? f x = none → K.gains x) :
    K.Tracks (inFrame f xs) (evalDeclarators (D ctx) f kind ds) (evalDeclarators E f kind ds) s := by
  induction ds generalizing s with
  | nil => exact tracks_pure hs ()
  | cons head ds ih =>
      obtain ⟨x, init⟩ := head
      rw [declaratorParts, good_append] at hds
      rw [← List.singleton_append, Stmt.declares_decl_append] at hxs
      rw [evalDeclarators_cons, evalDeclarators_cons]
      refine (h.evalInit hds.1 hs (hhere s (.refl _ s))).of_nowhere.bind
        fun v s₁ hinit hs₁ h₁ => ?_
      have hstore := tracks_store (v := v) init hs₁ (K.here_lt (hhere s₁ h₁))
        fun w hkind hw => hgains x w s₁ hkind (.here (hw ▸ hinit))
      have hmono : K.Tracks (inFrame f xs) (store f kind x v) (store f kind x v) s₁ :=
        hstore.mono fun i _ y b hd => ⟨hd.1, hxs (List.mem_append_left _ hd.2)⟩
      refine hmono.bind fun _ s₂ hstored hs₂ h₂ => ?_
      have h₁₂ := h₁.trans h₂
      exact ih hds.2 hs₂ (fun s' h' => hhere s' (h₁₂.trans h'))
        (fun y hy => hxs (List.mem_append_right _ hy))
        fun y w s' hkind hstores => hgains y w s' hkind (.later hinit hstored hstores)

theorem stores (h : K.Related D E) (hgains : ∀ x, K.gains x) {kind : DeclKind} {x : String}
    {v : Option Value} {ds : List (String × Option Expr)} {xs : List (String × Bool)} {s' : State}
    (hstores : Stores E f kind x v s' ds s) (hds : K.Good (declaratorParts ds)) (hs : K.Holds s)
    (hhere : ∀ s', s.Grows (inFrame f xs) s' → K.here ctx f s')
    (hxs : (Stmt.decl kind ds).declares ⊆ xs) :
    K.Holds s' ∧ ∃ pre init post, ds = pre ++ (x, init) :: post ∧
      s.Grows (inFrame f (Stmt.decl kind pre).declares) s' := by
  induction hstores with
  | @here init ds s hinit =>
      rw [declaratorParts, good_append] at hds
      obtain ⟨hs', hgrows⟩ := (h.evalInit hds.1 hs (hhere s (.refl _ s))).done hinit
      exact ⟨hs', [], init, ds, rfl, hgrows.of_nowhere⟩
  | @later y init ds s s₁ s₂ w hinit hstore _ ih =>
      rw [declaratorParts, good_append] at hds
      rw [← List.singleton_append, Stmt.declares_decl_append] at hxs
      obtain ⟨hs₁, h₁⟩ := (h.evalInit hds.1 hs (hhere s (.refl _ s))).done hinit
      have hf := K.here_lt (hhere s₁ h₁.of_nowhere)
      obtain ⟨hs₂, h₂⟩ :=
        (tracks_store init hs₁ hf fun _ _ _ _ => hgains y).done hstore
      have h₁₂ := h₁.of_nowhere.trans h₂
      have hmono : s.Grows (inFrame f xs) s₂ :=
        h₁₂.mono fun i _ y b hd => ⟨hd.1, hxs (List.mem_append_left _ hd.2)⟩
      obtain ⟨hs', pre, init', post, rfl, h'⟩ := ih hds.2 hs₂
        (fun s' h' => hhere s' (hmono.trans h')) fun y hy => hxs (List.mem_append_right _ hy)
      refine ⟨hs', (y, init) :: pre, init', post, rfl, ?_⟩
      rw [← List.singleton_append, Stmt.declares_decl_append]
      refine (h₁₂.mono ?_).trans (h'.mono ?_)
      · exact fun i _ y b hd => ⟨hd.1, List.mem_append_left _ hd.2⟩
      · exact fun i _ y b hd => ⟨hd.1, List.mem_append_right _ hd.2⟩

theorem whilePass (h : K.Related D E) {p : Place} {test : Expr} {body : Stmt}
    (ht : K.Good (exprParts test)) (hb : K.Good (stmtParts p body)) (last : Option Value)
    (hs : K.Holds s) (hready : ∀ s', s.Grows (inFrame f body.declares) s' → K.ready ctx f [body] s') :
    K.Tracks (inFrame f body.declares) (whilePass (D ctx) f test body last)
      (whilePass E f test body last) s := by
  have hhere := ready_here_self (hready s (.refl _ s))
  refine (h.expr ht hs hhere).of_nowhere.bind fun v s₁ _ hs₁ h₁ => ?_
  cases v.truthy with
  | true => exact (h.stmt hb hs₁ (hready s₁ h₁)).bind fun c _ _ hs₂ _ => tracks_pure hs₂ _
  | false => exact tracks_pure hs₁ _

theorem doPass (h : K.Related D E) {p : Place} {test : Expr} {body : Stmt}
    (ht : K.Good (exprParts test)) (hb : K.Good (stmtParts p body)) (last : Option Value)
    (hs : K.Holds s) (hready : ∀ s', s.Grows (inFrame f body.declares) s' → K.ready ctx f [body] s') :
    K.Tracks (inFrame f body.declares) (doPass (D ctx) f body test last)
      (doPass E f body test last) s := by
  refine (h.stmt hb hs (hready s (.refl _ s))).bind fun c s₁ _ hs₁ h₁ => ?_
  cases afterPass last c with
  | inr c => exact tracks_pure hs₁ _
  | inl last =>
      refine (h.expr ht hs₁ (ready_here_self (hready s₁ h₁))).of_nowhere.bind fun v _ _ hs₂ _ => ?_
      cases v.truthy with
      | true => exact tracks_pure hs₂ _
      | false => exact tracks_pure hs₂ _

theorem holds (h : K.Related D E) {e : Option Expr} (he : K.Good (maybeExprParts e))
    (hs : K.Holds s) (hhere : K.here ctx f s) :
    K.Tracks nowhere (holds (D ctx) f e) (holds E f e) s := by
  cases e with
  | none => exact tracks_pure hs true
  | some e => exact (h.expr he hs hhere).bind fun v _ _ hs₁ _ => tracks_pure hs₁ _

theorem evalMaybe (h : K.Related D E) {e : Option Expr} (he : K.Good (maybeExprParts e))
    (hs : K.Holds s) (hhere : K.here ctx f s) :
    K.Tracks nowhere (evalMaybe (D ctx) f e) (evalMaybe E f e) s := by
  cases e with
  | none => exact tracks_pure hs ()
  | some e => exact (h.expr he hs hhere).bind fun v _ _ hs₁ _ => tracks_pure hs₁ _

theorem evalBlock (h : K.Related D E) {p : Place} {t : Stmt} {body : List Stmt}
    (hopens : t.Opens (.block body)) (ht : K.ok (.stmt p t)) (hscope : K.ok (.scope (.block body)))
    (hbody : K.Good (stmtsParts p body)) (hs : K.Holds s) (hready : K.ready ctx f [t] s) :
    K.Tracks nowhere (evalBlock (D (.block body :: ctx)) f body) (evalBlock E f body) s := by
  have hf := K.here_lt (ready_here_self hready)
  refine Tracks.nowhere_of_since ?_
  refine (tracks_blockFrame hs hf).bind fun inner s₁ hdone hs₁ _ => ?_
  cases hdone
  refine (h.runBody hbody hs₁ (s.opens_withFrame f false).lt ?_).since (Nat.le_refl _)
  intro s₂ _ h₂ hbinds
  obtain ⟨hopened, hbound⟩ := State.opens_of_grows h₂.memory
  refine K.ready_opens hready hopens ht hscope (List.nil_append body).symm hopened h₂.depth
    (fun x b hb => .inl ?_) (.inl hbinds)
  have hx := mem_mutables.mp (hbound x b hb)
  exact ⟨hx.1, .inr hx.2⟩

theorem evalHandler (h : K.Related D E) {p : Place} {t : Stmt} {param : String}
    {body : List Stmt} (hopens : t.Opens (.handler param body)) (ht : K.ok (.stmt p t))
    (hscope : K.ok (.scope (.block body))) (hbody : K.Good (stmtsParts p body)) (e : Fault)
    (hs : K.Holds s) (hready : K.ready ctx f [t] s) :
    K.Tracks nowhere (evalHandler (D (.handler param body :: ctx)) f param body e)
      (evalHandler E f param body e) s := by
  have hf := K.here_lt (ready_here_self hready)
  refine Tracks.nowhere_of_since ?_
  refine (tracks_blockFrame hs hf).bind fun inner s₁ hdone hs₁ _ => ?_
  cases hdone
  have hlt := (s.opens_withFrame f false).lt
  refine (tracks_allocate hs₁ (fun m => m.frames_toValue e) fun m => e.closures_toValue m).bind ?_
  intro v s₂ hv hs₂ _
  have h₂ : (s.withFrame f false).Grows (inFrame s.memory.frames.size
      (mutables (param :: hoisted body))) s₂ := by
    cases hv
    exact ⟨rfl, .of_frames_eq ((s.withFrame f false).memory.frames_toValue e)⟩
  have hlt₂ := Nat.lt_of_lt_of_le hlt h₂.size_le
  have hparam : K.Tracks (inFrame s.memory.frames.size (mutables (param :: hoisted body)))
      (declare s.memory.frames.size param v true) (declare s.memory.frames.size param v true) s₂ :=
    tracks_declare hs₂ hlt₂ v ⟨rfl, List.mem_cons_self ..⟩
  refine (hparam.since (Nat.le_refl _)).bind fun _ s₃ hdeclared hs₃ _ => ?_
  have h₃ := h₂.trans (hparam.done hdeclared).2
  refine (h.runBody hbody hs₃ (Nat.lt_of_lt_of_le hlt h₃.size_le) ?_).since (Nat.le_refl _)
  intro s₄ _ h₄ hbinds
  have hall := h₃.trans (h₄.mono fun i _ x isMutable hd => ⟨hd.1, List.mem_cons_of_mem _ hd.2⟩)
  obtain ⟨hopened, hbound⟩ := State.opens_of_grows hall.memory
  refine K.ready_opens hready hopens ht hscope (List.nil_append body).symm hopened hall.depth
    (fun x b hb => .inl ?_) (.inl hbinds)
  have hx := mem_mutables.mp (hbound x b hb)
  exact ⟨hx.1, (List.mem_cons.mp hx.2).imp (fun hx => congrArg some hx.symm) id⟩

theorem finish (h : K.Related D E) {p : Place} {t : Stmt} {finalizer : Option (List Stmt)}
    (hopens : ∀ body, finalizer = some body → t.Opens (.block body)) (ht : K.ok (.stmt p t))
    (hfinalizer : ∀ body, finalizer = some body →
      K.ok (.scope (.block body)) ∧ K.Good (stmtsParts p body))
    (result : Except Fault Completion) (hs : K.Holds s) (hready : K.ready ctx f [t] s) :
    K.Tracks nowhere
      (finish (D (finalizer.elim ctx fun body => .block body :: ctx)) f result finalizer)
      (finish E f result finalizer) s := by
  cases finalizer with
  | none => exact tracks_ofExcept hs result
  | some body =>
      obtain ⟨hscope, hbody⟩ := hfinalizer body rfl
      refine (h.evalBlock (hopens body rfl) ht hscope hbody hs hready).bind fun c _ _ hs₁ _ => ?_
      cases c with
      | normal v => exact tracks_ofExcept hs₁ result
      | returned v | broke | continued => exact tracks_pure hs₁ _

theorem handled (h : K.Related D E) {p : Place} {t : Stmt}
    {handler : Option (String × List Stmt)}
    (hopens : ∀ param body, handler = some (param, body) → t.Opens (.handler param body))
    (ht : K.ok (.stmt p t))
    (hhandler : ∀ param body, handler = some (param, body) →
      K.ok (.scope (.block body)) ∧ K.Good (stmtsParts p body))
    (result : Except Fault Completion) (hs : K.Holds s) (hready : K.ready ctx f [t] s) :
    K.Tracks nowhere
      (handled (D (handler.elim ctx fun h => .handler h.1 h.2 :: ctx)) f handler result)
      (handled E f handler result) s := by
  rcases handler with _ | ⟨param, body⟩
  · exact tracks_pure hs result
  · cases result with
    | ok c => exact tracks_pure hs _
    | error e =>
        simp only [Eval.handled, Option.elim_some]
        obtain ⟨hscope, hbody⟩ := hhandler param body rfl
        split
        · exact (h.evalHandler (hopens param body rfl) ht hscope hbody e hs hready).outcome
        · exact tracks_pure hs _

theorem tryIn (h : K.Related D E) {p : Place} {body : List Stmt}
    {handler : Option (String × List Stmt)} {finalizer : Option (List Stmt)}
    (ht : K.Good (stmtParts p (.tryCatch body handler finalizer))) (hs : K.Holds s)
    (hready : K.ready ctx f [.tryCatch body handler finalizer] s) :
    K.Tracks nowhere (tryIn D ctx f body handler finalizer) (evalTry E f body handler finalizer)
      s := by
  obtain ⟨⟨hscope, hbody⟩, hhandler, hfinalizer⟩ := ht.tryCatch
  have hassoc : Eval.evalTry E f body handler finalizer =
      (outcome (Eval.evalBlock E f body) >>= fun result =>
        Eval.handled E f handler result >>= fun result =>
          Eval.finish E f result finalizer) := by
    rw [Eval.evalTry, attempt, bind_assoc]
  rw [hassoc]
  refine (h.evalBlock (.attempt ..) ht.self hscope hbody hs hready).outcome.bind ?_
  intro result s₁ _ hs₁ h₁
  have hready₁ := K.ready_grows hready h₁
  refine (h.handled ?_ ht.self hhandler result hs₁ hready₁).bind fun result s₂ _ hs₂ h₂ => ?_
  · rintro param body rfl
    exact .handler ..
  · refine h.finish ?_ ht.self hfinalizer result hs₂ (K.ready_grows hready₁ h₂)
    rintro body rfl
    exact .finalizer ..

theorem evalReturn (h : K.Related D E) {e : Option Expr} (he : K.Good (maybeExprParts e))
    (hs : K.Holds s) (hhere : K.here ctx f s) :
    K.Tracks nowhere (evalReturn (D ctx) f e) (evalReturn E f e) s := by
  cases e with
  | none => exact tracks_pure hs _
  | some e => exact (h.expr he hs hhere).bind fun v _ _ hs₁ _ => tracks_pure hs₁ _

end Related

theorem nextFrame_cons (f inner : FrameRef) {names : List (String × Bool)} (h : names ≠ []) :
    nextFrame f inner names =
      (do let next ← blockFrame f; copyNames inner next names; return next) := by
  cases names with
  | nil => exact (h rfl).elim
  | cons x names => rfl

section Loop

variable {p : Place} {init : Option Stmt} {test update : Option Expr} {body : Stmt}

/-- The next pass has the frame of the last one, or a new one that binds the names of the loop. -/
theorem tracksTo_nextFrame {inner : FrameRef} {s₁ : State} {n : Nat}
    (ht : K.ok (.stmt p (.forLoop init test update body)))
    (hscope : K.ok (.scope (.forLoop init body))) (hinner : n ≤ inner)
    (hpass : K.ready (.loop init body :: ctx) inner [body] s)
    (hgrows : s.Grows (inFrame inner body.declares) s₁) (hs₁ : K.Holds s₁)
    (hn : n ≤ s₁.memory.frames.size)
    (hready : K.ready ctx f [.forLoop init test update body] s₁) :
    K.TracksTo (since n)
      (fun next s' => n ≤ next ∧ K.ready (.loop init body :: ctx) next [body] s')
      (nextFrame f inner (loopNames init)) (nextFrame f inner (loopNames init)) s₁ := by
  by_cases hnames : loopNames init = []
  · rw [hnames]
    exact tracksTo_pure hs₁ ⟨hinner, K.ready_again hpass hnames hgrows⟩
  · rw [nextFrame_cons f inner hnames]
    have hf := K.here_lt (ready_here_self hready)
    refine (tracks_blockFrame hs₁ hf).bindTo fun next s₂ hdone hs₂ _ => ?_
    cases hdone
    have hcopy : K.Tracks (inFrame s₁.memory.frames.size (loopNames init))
        (copyNames inner s₁.memory.frames.size (loopNames init))
        (copyNames inner s₁.memory.frames.size (loopNames init)) (s₁.withFrame f false) :=
      tracks_copyNames hs₂ inner (s₁.opens_withFrame f false).lt _ fun x hx => hx
    refine (hcopy.since hn).bindTo fun _ s₃ hcopied hs₃ _ => ?_
    have h₃ := (hcopy.done hcopied).2
    obtain ⟨hopened, hbound⟩ := State.opens_of_grows h₃.memory
    refine tracksTo_pure hs₃ ⟨hn, ?_⟩
    refine K.ready_opens hready (.loop ..) ht hscope rfl hopened h₃.depth (fun x b hb => .inr ?_)
      (.inr ⟨init, test, update, body, rfl⟩)
    exact loopNames_eq hnames ▸ hbound x b hb

namespace Related

theorem forPass (h : K.Related D E) (ht : K.Good (stmtParts p (.forLoop init test update body)))
    (hready : K.ready ctx f [.forLoop init test update body] s) (pass : FrameRef × Option Value)
    {s₁ : State} (hs₁ : K.Holds s₁) (hgrows : s.Grows (since s.memory.frames.size) s₁)
    (hinner : s.memory.frames.size ≤ pass.1)
    (hpass : K.ready (.loop init body :: ctx) pass.1 [body] s₁) :
    K.TracksTo (since s.memory.frames.size)
      (fun r s' => ∀ pass' : FrameRef × Option Value, r = .inl pass' →
        s.Grows (since s.memory.frames.size) s' ∧ s.memory.frames.size ≤ pass'.1 ∧
          K.ready (.loop init body :: ctx) pass'.1 [body] s')
      (forPass (D (.loop init body :: ctx)) f (loopNames init) test update body pass)
      (forPass E f (loopNames init) test update body pass) s₁ := by
  obtain ⟨inner, last⟩ := pass
  have hok := ht.self
  simp only [stmtParts, good_cons, good_append] at ht
  obtain ⟨-, hscope, ⟨⟨-, htest⟩, hupdate⟩, hbody⟩ := ht
  have hholds := h.holds htest hs₁ (ready_here_self hpass)
  refine hholds.of_nowhere.bindTo fun goesOn s₂ hdone hs₂ g₂ => ?_
  have h₂ := (hholds.done hdone).2
  cases goesOn with
  | false => exact tracksTo_pure hs₂ fun _ hr => by cases hr
  | true =>
      have hrun := h.stmt hbody hs₂ (K.ready_grows hpass h₂)
      refine (hrun.since hinner).bindTo fun c s₃ hran hs₃ g₃ => ?_
      have h₃ := h₂.of_nowhere.trans (hrun.done hran).2
      have g := (hgrows.trans g₂).trans g₃
      cases afterPass last c with
      | inr c => exact tracksTo_pure hs₃ fun _ hr => by cases hr
      | inl last =>
          obtain ⟨hnext, hpost⟩ := tracksTo_nextFrame hok hscope hinner hpass h₃ hs₃ g.size_le
            (K.ready_grows hready g.nowhere_of_since)
          refine hnext.bindTo fun next s₄ hdone₄ hs₄ g₄ => ?_
          obtain ⟨hle, hready₄⟩ := hpost next s₄ hdone₄
          have hmaybe := h.evalMaybe hupdate hs₄ (ready_here_self hready₄)
          refine hmaybe.of_nowhere.bindTo fun _ s₅ hdone₅ hs₅ g₅ => ?_
          refine tracksTo_pure hs₅ fun pass' hr => ?_
          cases hr
          exact ⟨(g.trans g₄).trans g₅, hle, K.ready_grows hready₄ (hmaybe.done hdone₅).2⟩

theorem evalFor (h : K.Related D E) (ht : K.Good (stmtParts p (.forLoop init test update body)))
    (hs : K.Holds s) (hready : K.ready ctx f [.forLoop init test update body] s) :
    K.Tracks nowhere (evalFor (D (.loop init body :: ctx)) f init test update body)
      (evalFor E f init test update body) s := by
  have hok := ht.self
  have hparts := ht
  simp only [stmtParts, good_cons, good_append] at hparts
  obtain ⟨-, hscope, ⟨⟨hinit, -⟩, -⟩, -⟩ := hparts
  have hf := K.here_lt (ready_here_self hready)
  refine Tracks.nowhere_of_since ?_
  refine (tracks_blockFrame hs hf).bind fun inner s₁ hdone hs₁ h₁ => ?_
  cases hdone
  have hopened : K.ready (.loop init body :: ctx) s.memory.frames.size (init.toList ++ [body])
      (s.withFrame f false) := by
    refine K.ready_opens hready (.loop ..) hok hscope (List.nil_append _).symm
      (s.opens_withFrame f false) rfl (fun x b hb => ?_) (.inr ⟨init, test, update, body, rfl⟩)
    rw [s.bindingAt?_withFrame] at hb
    cases hb
  have hloop {s₂ : State} (hs₂ : K.Holds s₂) (h₂ : s.Grows (since s.memory.frames.size) s₂)
      (hpass : K.ready (.loop init body :: ctx) s.memory.frames.size [body] s₂) :
      K.Tracks (since s.memory.frames.size)
        (iterate (Eval.forPass (D (.loop init body :: ctx)) f (loopNames init) test update body)
          (D (.loop init body :: ctx)).fuel (s.memory.frames.size, none))
        (iterate (Eval.forPass E f (loopNames init) test update body) E.fuel
          (s.memory.frames.size, none)) s₂ := by
    rw [h.fuel]
    refine tracks_iterate
      (I := fun pass s' => s.Grows (since s.memory.frames.size) s' ∧
        s.memory.frames.size ≤ pass.1 ∧ K.ready (.loop init body :: ctx) pass.1 [body] s')
      (fun pass s' hs' hI => ?_) _ _ hs₂ ⟨h₂, Nat.le_refl _, hpass⟩
    exact h.forPass ht hready pass hs' hI.1 hI.2.1 hI.2.2
  cases init with
  | none => exact hloop hs₁ h₁ hopened
  | some t =>
      have hstmt := h.stmt hinit hs₁ (K.ready_head hopened)
      refine (hstmt.since (Nat.le_refl _)).bind fun c s₂ hran hs₂ g₂ => ?_
      exact hloop hs₂ (h₁.trans g₂) (K.ready_tail hopened (hstmt.done hran).2)

theorem stmtIn (h : K.Related D E) {t : Stmt} (ht : K.Good (stmtParts p t)) (hs : K.Holds s)
    (hready : K.ready ctx f [t] s) (hgains : ∀ x, StmtCreates E f x t s → K.gains x) :
    K.Tracks (inFrame f t.declares) (stmtIn D ctx f t) (evalStmt E f t) s := by
  have hhere := ready_here_self hready
  have hok := ht.self
  cases t with
  | decl kind ds =>
      rw [stmtParts, good_cons] at ht
      refine (h.evalDeclarators ht.2 hs (fun s' h' => K.ready_here hready ?_)
        (List.Subset.refl _) ?_).bind fun _ _ _ hs₁ _ => tracks_pure hs₁ _
      · simpa using h'
      · rintro x v s' rfl hstores hnone
        exact hgains x ⟨ds, v, s', rfl, hstores, hnone⟩
  | function definition => exact tracks_pure hs _
  | ifElse c t e =>
      cases e with
      | none =>
          rw [stmtParts, good_cons, good_append] at ht
          refine (h.expr ht.2.1 hs hhere).of_nowhere.bind fun v s₁ hdone hs₁ _ => ?_
          have h₁ := ((h.expr ht.2.1 hs hhere).done hdone).2
          cases v.truthy with
          | true => exact h.stmt ht.2.2 hs₁ (K.ready_then (K.ready_grows hready h₁) hok)
          | false => exact tracks_pure hs₁ _
      | some e =>
          rw [stmtParts, good_cons, good_append, good_append] at ht
          refine (h.expr ht.2.1.1 hs hhere).of_nowhere.bind fun v s₁ hdone hs₁ _ => ?_
          have hready₁ := K.ready_grows hready ((h.expr ht.2.1.1 hs hhere).done hdone).2
          cases v.truthy with
          | true =>
              refine (h.stmt ht.2.1.2 hs₁ (K.ready_then hready₁ hok)).mono ?_
              exact fun i _ x isMutable hd => ⟨hd.1, List.mem_append_left _ hd.2⟩
          | false =>
              refine (h.stmt ht.2.2 hs₁ (K.ready_else hready₁ hok)).mono ?_
              exact fun i _ x isMutable hd => ⟨hd.1, List.mem_append_right _ hd.2⟩
  | whileLoop c body =>
      rw [stmtParts, good_cons, good_append] at ht
      simp only [Eval.stmtIn, evalStmt, inside, h.fuel]
      refine tracks_iterate_grows (fun last s' hs' h' => ?_) _ _ hs
      exact h.whilePass ht.2.1 ht.2.2 last hs' fun s'' h'' =>
        K.ready_while hready hok (h'.trans h'')
  | doWhile body c =>
      rw [stmtParts, good_cons, good_append] at ht
      simp only [Eval.stmtIn, evalStmt, inside, h.fuel]
      refine tracks_iterate_grows (fun last s' hs' h' => ?_) _ _ hs
      exact h.doPass ht.2.2 ht.2.1 last hs' fun s'' h'' =>
        K.ready_do hready hok (h'.trans h'')
  | forLoop init test update body => exact (h.evalFor ht hs hready).of_nowhere
  | block body =>
      rw [stmtParts, good_cons, good_cons] at ht
      exact (h.evalBlock (.block body) hok ht.2.1 ht.2.2 hs hready).of_nowhere
  | tryCatch body handler finalizer => exact (h.tryIn ht hs hready).of_nowhere
  | breakLoop | continueLoop | empty => exact tracks_pure hs _
  | returnValue e =>
      rw [stmtParts, good_cons] at ht
      exact (h.evalReturn ht.2 hs hhere).of_nowhere
  | throw e =>
      rw [stmtParts, good_cons] at ht
      exact (h.expr ht.2 hs hhere).of_nowhere.bind fun v _ _ hs₁ _ => tracks_fail hs₁ _
  | expr e =>
      rw [stmtParts, good_cons] at ht
      exact (h.expr ht.2 hs hhere).of_nowhere.bind fun v _ _ hs₁ _ => tracks_pure hs₁ _

end Related

end Loop

end Discipline

end SmallScript.Eval
