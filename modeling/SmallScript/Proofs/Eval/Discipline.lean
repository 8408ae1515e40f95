import SmallScript.Proofs.Eval.Context
import SmallScript.Proofs.Memory.Growth
import Mathlib

namespace SmallScript

open Declares

structure State.Grows (d : Declares) (s s' : State) : Prop where
  depth : s'.depth = s.depth
  memory : s.memory.Grows d s'.memory

structure State.Opens (parent : FrameRef) (isBoundary : Bool) (i : FrameRef) (s s' : State) :
    Prop where
  fresh : s.memory.frames.size ≤ i
  lt : i < s'.memory.frames.size
  parent : (s'.memory.frameAt i).parent = some parent
  isBoundary : (s'.memory.frameAt i).isBoundary = isBoundary
  memory : s.memory.Grows nowhere s'.memory

/-- The scopes that a statement opens. -/
inductive Stmt.Opens : Stmt → Level → Prop where
  | block (body : List Stmt) : Opens (.block body) (.block body)
  | attempt (body : List Stmt) (handler : Option (String × List Stmt))
      (finalizer : Option (List Stmt)) : Opens (.tryCatch body handler finalizer) (.block body)
  | handler (body : List Stmt) (param : String) (h : List Stmt)
      (finalizer : Option (List Stmt)) :
      Opens (.tryCatch body (some (param, h)) finalizer) (.handler param h)
  | finalizer (body : List Stmt) (handler : Option (String × List Stmt)) (last : List Stmt) :
      Opens (.tryCatch body handler (some last)) (.block last)
  | loop (init : Option Stmt) (test update : Option Expr) (body : Stmt) :
      Opens (.forLoop init test update body) (.loop init body)

/-- What a frame may bind when the statements behind `pre` start in it: the parameter of a catch
clause, functions, and what `pre` declares. -/
def Level.Starts (l : Level) (pre : List Stmt) (x : String) (isMutable : Bool) : Prop :=
  isMutable = true ∧ (l.caught = some x ∨ x ∈ hoisted l.scope.body) ∨
    (x, isMutable) ∈ declaredBy pre

def Memory.BindsFunctions (m : Memory) (i : FrameRef) (ts : List Stmt) : Prop :=
  ∀ x ∈ hoisted ts, m.isDeclaredHere i x = true

namespace Eval

open Effect

structure Discipline where
  global : FrameRef
  /-- The names that the global frame may get by writes. -/
  gains : String → Prop
  /-- What holds of every part of a tree that runs. -/
  ok : Part → Prop
  /-- What holds where an expression is evaluated. -/
  here : Context → FrameRef → State → Prop
  /-- What holds where statements are about to run, one after the other. -/
  ready : Context → FrameRef → List Stmt → State → Prop
  ok_empty : ok (.scope (.function [] []))
  here_lt : ∀ {ctx f s}, here ctx f s → f < s.memory.frames.size
  here_grows : ∀ {ctx f s s'}, here ctx f s → s.Grows nowhere s' → here ctx f s'
  ready_here : ∀ {ctx f ts s s'}, ready ctx f ts s → s.Grows (inFrame f (declaredBy ts)) s' →
    here ctx f s'
  ready_grows : ∀ {ctx f ts s s'}, ready ctx f ts s → s.Grows nowhere s' → ready ctx f ts s'
  ready_head : ∀ {ctx f t ts s}, ready ctx f (t :: ts) s → ready ctx f [t] s
  ready_tail : ∀ {ctx f t ts s s'}, ready ctx f (t :: ts) s → s.Grows (inFrame f t.declares) s' →
    ready ctx f ts s'
  ready_then : ∀ {ctx p f c t e s}, ready ctx f [.ifElse c t e] s → ok (.stmt p (.ifElse c t e)) →
    ready ctx f [t] s
  ready_else : ∀ {ctx p f c t e s}, ready ctx f [.ifElse c t (some e)] s →
    ok (.stmt p (.ifElse c t (some e))) → ready ctx f [e] s
  ready_while : ∀ {ctx p f c body s s'}, ready ctx f [.whileLoop c body] s →
    ok (.stmt p (.whileLoop c body)) → s.Grows (inFrame f body.declares) s' →
    ready (ctx.repeating body) f [body] s'
  ready_do : ∀ {ctx p f c body s s'}, ready ctx f [.doWhile body c] s →
    ok (.stmt p (.doWhile body c)) → s.Grows (inFrame f body.declares) s' →
    ready (ctx.repeating body) f [body] s'
  ready_again : ∀ {ctx f init body s s'}, ready (.loop init body :: ctx) f [body] s →
    loopNames init = [] → s.Grows (inFrame f body.declares) s' →
    ready (.loop init body :: ctx) f [body] s'
  ready_opens : ∀ {ctx p f t l pre ts s i s'}, ready ctx f [t] s → t.Opens l →
    ok (.stmt p t) → ok (.scope l.scope) → l.scope.body = pre ++ ts → s.Opens f false i s' →
    s'.depth = s.depth →
    (∀ x b, s'.memory.bindingAt? i x = some b → l.Starts pre x b.isMutable) →
    (s'.memory.BindsFunctions i ts ∨ ∃ init test update body, t = .forLoop init test update body) →
    ready (l :: ctx) i ts s'
  ready_call : ∀ {ctx f definition outer s i s'}, here ctx f s →
    ok (.scope (.function definition.params definition.body)) → s.Opens outer true i s' →
    s'.depth = s.depth + 1 →
    (∀ x b, s'.memory.bindingAt? i x = some b → b.isMutable = true ∧
      (x ∈ definition.params ∨ x ∈ varNames.varNamesOf definition.body ∨
        x ∈ hoisted definition.body)) →
    (∀ x ∈ varNames.varNamesOf definition.body, s'.memory.isDeclaredHere i x = true) →
    s'.memory.BindsFunctions i definition.body →
    ready (.call definition :: ctx) i definition.body s'

end Eval

namespace State

variable {d d' : Declares} {s s' s'' : State} {f i : FrameRef} {isBoundary : Bool}

theorem Grows.refl (d : Declares) (s : State) : s.Grows d s := ⟨rfl, .refl d _⟩

theorem Grows.trans (h : s.Grows d s') (h' : s'.Grows d s'') : s.Grows d s'' :=
  ⟨h'.depth.trans h.depth, h.memory.trans h'.memory⟩

theorem Grows.mono (h : s.Grows d s')
    (hd : ∀ i < s.memory.frames.size, ∀ x isMutable, d i x isMutable → d' i x isMutable) :
    s.Grows d' s' :=
  ⟨h.depth, h.memory.mono hd⟩

theorem Grows.of_nowhere (h : s.Grows nowhere s') : s.Grows d s' := ⟨h.depth, h.memory.of_nowhere⟩

theorem Grows.nowhere_of_since (h : s.Grows (since s.memory.frames.size) s') :
    s.Grows nowhere s' :=
  ⟨h.depth, h.memory.nowhere_of_since⟩

theorem Grows.size_le (h : s.Grows d s') : s.memory.frames.size ≤ s'.memory.frames.size :=
  h.memory.size_le

theorem Grows.since (h : s.Grows (inFrame i xs) s') {n : Nat} (hi : n ≤ i) : s.Grows (since n) s' :=
  h.mono fun _ _ _ _ hd => hd.1 ▸ hi

theorem Opens.grows (h : s.Opens f isBoundary i s')
    (h' : s'.memory.Grows (Declares.since s.memory.frames.size) s''.memory) :
    s.Opens f isBoundary i s'' where
  fresh := h.fresh
  lt := Nat.lt_of_lt_of_le h.lt h'.size_le
  parent := (h'.parent i h.lt).trans h.parent
  isBoundary := (h'.isBoundary i h.lt).trans h.isBoundary
  memory := (h.memory.of_nowhere.trans h').nowhere_of_since

theorem Opens.declared {xs : List (String × Bool)} (h : s.Opens f isBoundary i s')
    (hempty : ∀ x, s'.memory.bindingAt? i x = none)
    (h' : s'.memory.Grows (inFrame i xs) s''.memory) {x : String} {b : Binding}
    (hb : s''.memory.bindingAt? i x = some b) : (x, b.isMutable) ∈ xs := by
  have hchange := h'.change i h.lt x
  rw [hempty, hb] at hchange
  cases hchange with
  | gained _ hglobal =>
      rw [h.parent] at hglobal
      cases hglobal
  | declared _ _ _ hd => exact hd.2

def withFrame (s : State) (f : FrameRef) (isBoundary : Bool) : State :=
  { s with memory := (s.memory.newFrame (some f) isBoundary).2 }

theorem opens_withFrame (s : State) (f : FrameRef) (isBoundary : Bool) :
    s.Opens f isBoundary s.memory.frames.size (s.withFrame f isBoundary) where
  fresh := Nat.le_refl _
  lt := by simp [withFrame]
  parent := by simp [withFrame, Memory.frameAt_newFrame]
  isBoundary := by simp [withFrame, Memory.frameAt_newFrame]
  memory := Memory.grows_newFrame _ _ _ _

theorem grows_withFrame (s : State) (d : Declares) (f : FrameRef) (isBoundary : Bool) :
    s.Grows d (s.withFrame f isBoundary) :=
  ⟨rfl, Memory.grows_newFrame _ _ _ _⟩

theorem bindingAt?_withFrame (s : State) (f : FrameRef) (isBoundary : Bool) (x : String) :
    (s.withFrame f isBoundary).memory.bindingAt? s.memory.frames.size x = none := by
  rw [withFrame, Memory.bindingAt?, Memory.frameAt_newFrame, if_pos rfl]
  rfl

theorem opens_of_grows {xs : List (String × Bool)}
    (h : (s.withFrame f isBoundary).memory.Grows (inFrame s.memory.frames.size xs) s'.memory) :
    s.Opens f isBoundary s.memory.frames.size s' ∧
      ∀ x b, s'.memory.bindingAt? s.memory.frames.size x = some b → (x, b.isMutable) ∈ xs := by
  have hopens := s.opens_withFrame f isBoundary
  refine ⟨hopens.grows (h.mono fun _ _ _ _ hd => hd.1 ▸ Nat.le_refl _), fun x b hb => ?_⟩
  exact hopens.declared (s.bindingAt?_withFrame f isBoundary) h hb

end State

namespace Eval

open Effect

namespace Discipline

variable {K : Discipline} {α β : Type} {d d' : Declares} {s s' : State} {f : FrameRef}

def Good (K : Discipline) (xs : List Part) : Prop := ∀ x ∈ xs, K.ok x

@[simp] theorem good_cons (x : Part) (xs : List Part) :
    K.Good (x :: xs) ↔ K.ok x ∧ K.Good xs :=
  List.forall_mem_cons

@[simp] theorem good_append (xs ys : List Part) : K.Good (xs ++ ys) ↔ K.Good xs ∧ K.Good ys :=
  List.forall_mem_append

theorem Good.self {p : Place} {t : Stmt} (h : K.Good (stmtParts p t)) : K.ok (.stmt p t) := by
  rcases t with _ | _ | ⟨_, _, _ | _⟩ | _ | _ | _ | _ | ⟨_, _ | _, _ | _⟩ | _ | _ | _ | _ | _ | _ <;>
    exact h _ (List.mem_cons_self ..)

theorem Good.tryCatch {p : Place} {body : List Stmt} {handler : Option (String × List Stmt)}
    {finalizer : Option (List Stmt)}
    (h : K.Good (stmtParts p (.tryCatch body handler finalizer))) :
    (K.ok (.scope (.block body)) ∧ K.Good (stmtsParts p body)) ∧
      (∀ param body, handler = some (param, body) →
        K.ok (.scope (.block body)) ∧ K.Good (stmtsParts p body)) ∧
      ∀ body, finalizer = some body →
        K.ok (.scope (.block body)) ∧ K.Good (stmtsParts p body) := by
  rcases handler with _ | ⟨param, handler⟩ <;> cases finalizer <;>
    simp only [stmtParts, good_cons, good_append] at h <;> simp [h]

/-- Chains of frames end in the global one, and the functions in memory are in order. -/
structure Holds (K : Discipline) (s : State) : Prop where
  rooted : s.memory.Rooted K.global
  closures : ∀ c ∈ s.memory.closures, K.Good (functionParts c.definition)

theorem Holds.of_frames_eq (hs : K.Holds s) (hframes : s'.memory.frames = s.memory.frames)
    (hclosures : s'.memory.closures = s.memory.closures) : K.Holds s' :=
  ⟨hs.rooted.of_frames_eq hframes hclosures, hclosures ▸ hs.closures⟩

theorem Holds.closureAt (hs : K.Holds s) (c : ClosureRef) :
    K.Good (functionParts (s.memory.closureAt c).definition) := by
  rw [Memory.closureAt]
  cases hc : s.memory.closures[c]? with
  | none =>
      intro x hx
      obtain rfl : x = .scope (.function [] []) := by simpa [functionParts, stmtsParts] using hx
      exact K.ok_empty
  | some closure => exact hs.closures _ (Array.mem_of_getElem? hc)

theorem Holds.newFrame (hs : K.Holds s) (hf : f < s.memory.frames.size) (isBoundary : Bool) :
    K.Holds (s.withFrame f isBoundary) :=
  ⟨hs.rooted.newFrame hf isBoundary, hs.closures⟩

/-- Frames have only grown, and the global one has got no names that it may not get. -/
structure Leads (K : Discipline) (d : Declares) (s s' : State) : Prop where
  grows : s.Grows d s'
  spares : K.global < s.memory.frames.size → ∀ x, ¬K.gains x → (∀ b, ¬d K.global x b) →
    s.memory.bindingAt? K.global x = none → s'.memory.bindingAt? K.global x = none

theorem Leads.refl (d : Declares) (s : State) : K.Leads d s s := ⟨.refl d s, fun _ _ _ _ => id⟩

theorem Leads.trans {s'' : State} (h : K.Leads d s s') (h' : K.Leads d s' s'') :
    K.Leads d s s'' := by
  refine ⟨h.grows.trans h'.grows, fun hg x hx hd hnone => ?_⟩
  exact h'.spares (Nat.lt_of_lt_of_le hg h.grows.size_le) x hx hd (h.spares hg x hx hd hnone)

theorem Leads.mono (h : K.Leads d s s')
    (hd : ∀ i < s.memory.frames.size, ∀ x isMutable, d i x isMutable → d' i x isMutable) :
    K.Leads d' s s' :=
  ⟨h.grows.mono hd,
    fun hg x hx hd' => h.spares hg x hx fun b hb => hd' b (hd K.global hg x b hb)⟩

theorem Leads.of_frames_eq (hdepth : s'.depth = s.depth)
    (hframes : s'.memory.frames = s.memory.frames) : K.Leads d s s' := by
  refine ⟨⟨hdepth, .of_frames_eq hframes⟩, fun _ x _ _ hnone => ?_⟩
  rw [Memory.bindingAt?, Memory.frameAt, hframes]
  exact hnone

/-- Both effects do the same from the state `s` on; then what holds of states holds again, and
frames have only grown. -/
def Tracks (K : Discipline) (d : Declares) (x y : Effect α) (s : State) : Prop :=
  x s = y s ∧ ∀ s', (y s).state? = some s' → K.Holds s' ∧ K.Leads d s s'

variable {x y : Effect α}

theorem Tracks.leads (h : K.Tracks d x y s) {a : α} (hy : y s = .done a s') :
    K.Holds s' ∧ K.Leads d s s' :=
  h.2 s' (by rw [hy]; rfl)

theorem Tracks.done (h : K.Tracks d x y s) {a : α} (hy : y s = .done a s') :
    K.Holds s' ∧ s.Grows d s' :=
  (h.leads hy).imp_right Leads.grows

theorem Tracks.bind {k k' : α → Effect β} (h : K.Tracks d x y s)
    (hk : ∀ a s', y s = .done a s' → K.Holds s' → s.Grows d s' → K.Tracks d (k a) (k' a) s') :
    K.Tracks d (x >>= k) (y >>= k') s := by
  rw [Tracks, bind_apply, bind_apply, h.1]
  cases hy : y s with
  | done a s' =>
      obtain ⟨hs', hleads⟩ := h.leads hy
      obtain ⟨heq, hends⟩ := hk a s' hy hs' hleads.grows
      refine ⟨heq, fun s'' hs'' => ?_⟩
      obtain ⟨hholds, hleads'⟩ := hends s'' hs''
      exact ⟨hholds, hleads.trans hleads'⟩
  | fail e s' =>
      refine ⟨rfl, fun s'' hs'' => ?_⟩
      exact h.2 s'' (by rw [hy]; exact hs'')
  | exhausted => exact ⟨rfl, fun s'' hs'' => by cases hs''⟩

theorem Tracks.mono (h : K.Tracks d x y s)
    (hd : ∀ i < s.memory.frames.size, ∀ x isMutable, d i x isMutable → d' i x isMutable) :
    K.Tracks d' x y s :=
  ⟨h.1, fun s' hs' => ⟨(h.2 s' hs').1, (h.2 s' hs').2.mono hd⟩⟩

theorem Tracks.of_nowhere (h : K.Tracks nowhere x y s) : K.Tracks d x y s :=
  h.mono fun _ _ _ _ hd => hd.elim

/-- Whatever is declared in frames that are made on the way counts for nothing. -/
theorem Tracks.nowhere_of_since (h : K.Tracks (since s.memory.frames.size) x y s) :
    K.Tracks d x y s :=
  h.mono fun _ hi _ _ hle => absurd hle (Nat.not_le_of_lt hi)

theorem Tracks.since {f : FrameRef} {xs : List (String × Bool)} (h : K.Tracks (inFrame f xs) x y s)
    {n : Nat} (hn : n ≤ f) : K.Tracks (since n) x y s :=
  h.mono fun _ _ _ _ hd => hd.1 ▸ hn

theorem tracks_done {a : α} (hx : x s = .done a s') (hs : K.Holds s') (h : K.Leads d s s') :
    K.Tracks d x x s := by
  refine ⟨rfl, fun s'' hs'' => ?_⟩
  rw [hx] at hs''
  cases hs''
  exact ⟨hs, h⟩

theorem tracks_pure (hs : K.Holds s) (a : α) : K.Tracks d (pure a) (pure a) s :=
  tracks_done rfl hs (.refl d s)

theorem tracks_fail (hs : K.Holds s) (e : Fault) :
    K.Tracks d (fail (α := α) e) (fail e) s := by
  refine ⟨rfl, fun s' hs' => ?_⟩
  cases hs'
  exact ⟨hs, .refl d s⟩

theorem tracks_exhausted : K.Tracks d (fun _ => .exhausted : Effect α) (fun _ => .exhausted) s :=
  ⟨rfl, fun s' hs' => by cases hs'⟩

theorem tracks_look (hs : K.Holds s) (f : Memory → α) : K.Tracks d (look f) (look f) s :=
  tracks_done rfl hs (.refl d s)

theorem tracks_depth (hs : K.Holds s) : K.Tracks d depth depth s := tracks_done rfl hs (.refl d s)

theorem tracks_ofExcept (hs : K.Holds s) (r : Except Fault α) :
    K.Tracks d (ofExcept r) (ofExcept r) s := by
  cases r with
  | ok a => exact tracks_pure hs a
  | error e => exact tracks_fail hs e

theorem tracks_query (hs : K.Holds s) (f : Memory → Except Fault α) :
    K.Tracks d (query f) (query f) s := by
  refine ⟨rfl, fun s' hs' => ?_⟩
  exact (tracks_ofExcept hs (f s.memory)).2 s' hs'

theorem tracks_change (hs : K.Holds s) {f : Memory → Memory} (hframes : ∀ m, (f m).frames = m.frames)
    (hclosures : ∀ m, (f m).closures = m.closures) : K.Tracks d (change f) (change f) s :=
  tracks_done rfl (hs.of_frames_eq (hframes s.memory) (hclosures s.memory))
    (.of_frames_eq rfl (hframes s.memory))

theorem tracks_allocate (hs : K.Holds s) {f : Memory → α × Memory}
    (hframes : ∀ m, (f m).2.frames = m.frames) (hclosures : ∀ m, (f m).2.closures = m.closures) :
    K.Tracks d (allocate f) (allocate f) s :=
  tracks_done rfl (hs.of_frames_eq (hframes s.memory) (hclosures s.memory))
    (.of_frames_eq rfl (hframes s.memory))

theorem tracks_writeLine (hs : K.Holds s) (host : Host) (line : String) :
    K.Tracks d (writeLine host line) (writeLine host line) s := by
  refine ⟨rfl, fun s' hs' => ?_⟩
  unfold writeLine at hs'
  cases h : host.sinkFault s.writes with
  | none | some m =>
      simp only [h] at hs'
      cases hs'
      exact ⟨hs.of_frames_eq rfl rfl, .of_frames_eq rfl rfl⟩

theorem tracks_declare (hs : K.Holds s) (hf : f < s.memory.frames.size) {x : String} (v : Value)
    {isMutable : Bool} (hd : d f x isMutable) :
    K.Tracks d (declare f x v isMutable) (declare f x v isMutable) s := by
  refine tracks_done rfl ⟨hs.rooted.declare hf isMutable, hs.closures⟩
    ⟨⟨rfl, Memory.grows_declare hf hd⟩, fun _ y _ hy hnone => ?_⟩
  rw [Memory.bindingAt?_declare hf, if_neg]
  · exact hnone
  · rintro ⟨rfl, rfl⟩
    exact hy isMutable hd

theorem leads_withFrame (s : State) (d : Declares) (f : FrameRef) (isBoundary : Bool) :
    K.Leads d s (s.withFrame f isBoundary) := by
  refine ⟨s.grows_withFrame d f isBoundary, fun hg x _ _ hnone => ?_⟩
  rw [State.withFrame, Memory.bindingAt?, Memory.frameAt_newFrame, if_neg (Nat.ne_of_lt hg)]
  exact hnone

theorem blockFrame_apply (f : FrameRef) (s : State) :
    blockFrame f s = .done s.memory.frames.size (s.withFrame f false) := rfl

theorem tracks_blockFrame (hs : K.Holds s) (hf : f < s.memory.frames.size) :
    K.Tracks d (blockFrame f) (blockFrame f) s :=
  tracks_done (blockFrame_apply f s) (hs.newFrame hf false) (leads_withFrame s d f false)

theorem tracks_newClosure (hs : K.Holds s) (hf : f < s.memory.frames.size) {definition : Function}
    (hd : K.Good (functionParts definition)) :
    K.Tracks d (newClosure definition f) (newClosure definition f) s := by
  refine tracks_done rfl ⟨hs.rooted.newClosure definition hf, ?_⟩ (.of_frames_eq rfl rfl)
  intro c hc
  rcases Array.mem_push.mp hc with hc | rfl
  · exact hs.closures c hc
  · exact hd

theorem tracks_readName (hs : K.Holds s) (f : FrameRef) (x : String) :
    K.Tracks d (readName f x) (readName f x) s :=
  tracks_query hs _

/-- A name without a binding may be assigned if the global frame may get it. -/
theorem tracks_assign (hs : K.Holds s) (hf : f < s.memory.frames.size) (x : String) (v : Value)
    (hx : s.memory.resolve? f x = none → K.gains x) :
    K.Tracks d (assign f x v) (assign f x v) s := by
  refine ⟨rfl, fun s' hs' => ?_⟩
  rw [assign, bind_apply, query] at hs'
  cases hw : s.memory.writableFrame f x with
  | error e =>
      rw [hw] at hs'
      cases hs'
      exact ⟨hs, .refl d s⟩
  | ok i =>
      rw [hw] at hs'
      cases hs'
      obtain ⟨hi, -⟩ := hs.rooted.change_write (d := d) (v := v) hf hw
      refine ⟨⟨hs.rooted.declare hi true, hs.closures⟩,
        ⟨rfl, Memory.grows_write hs.rooted hf hw⟩, fun _ y hy _ hnone => ?_⟩
      show (s.memory.declare i x v true).bindingAt? K.global y = none
      rw [Memory.bindingAt?_declare hi, if_neg]
      · exact hnone
      · rintro ⟨rfl, rfl⟩
        exact hy (hx (Memory.resolve?_none_of_writableFrame hw hnone))

theorem tracks_getProperty (hs : K.Holds s) (v : Value) (key : String) :
    K.Tracks d (getProperty v key) (getProperty v key) s :=
  tracks_query hs _

theorem tracks_setProperty (hs : K.Holds s) (base : Value) (key : String) (v : Value) :
    K.Tracks d (setProperty base key v) (setProperty base key v) s :=
  (tracks_query hs _).bind fun place _ _ hs' _ =>
    tracks_change hs' (fun m => m.frames_write v place) fun m => m.closures_write v place

theorem Tracks.deeper (h : K.Tracks d x y { s with depth := s.depth + 1 }) :
    K.Tracks d (deeper x) (deeper y) s := by
  rw [Tracks, deeper_apply, deeper_apply, h.1]
  refine ⟨rfl, fun s' hs' => ?_⟩
  rw [Outcome.state?_mapState, Option.map_eq_some_iff] at hs'
  obtain ⟨u, hu, rfl⟩ := hs'
  obtain ⟨hholds, hleads⟩ := h.2 u hu
  refine ⟨hholds.of_frames_eq rfl rfl, ⟨?_, hleads.grows.memory⟩, hleads.spares⟩
  show u.depth - 1 = s.depth
  rw [hleads.grows.depth, Nat.add_sub_cancel]

theorem Tracks.outcome (h : K.Tracks d x y s) : K.Tracks d (outcome x) (outcome y) s := by
  rw [Tracks, outcome_apply, outcome_apply, h.1]
  refine ⟨rfl, fun s' hs' => h.2 s' ?_⟩
  cases hy : y s with
  | done a u | fail e u =>
      rw [hy] at hs'
      exact hs'
  | exhausted =>
      rw [hy] at hs'
      cases hs'

/-- Tracks, with what holds of the value and the state if there is a value. -/
def TracksTo (K : Discipline) (d : Declares) (post : α → State → Prop) (x y : Effect α)
    (s : State) : Prop :=
  K.Tracks d x y s ∧ ∀ a s', y s = .done a s' → post a s'

theorem Tracks.bindTo {post : β → State → Prop} {k k' : α → Effect β} (h : K.Tracks d x y s)
    (hk : ∀ a s', y s = .done a s' → K.Holds s' → s.Grows d s' →
      K.TracksTo d post (k a) (k' a) s') :
    K.TracksTo d post (x >>= k) (y >>= k') s := by
  refine ⟨h.bind fun a s' hy hs' hgrows => (hk a s' hy hs' hgrows).1, fun b s'' hdone => ?_⟩
  rw [bind_apply] at hdone
  cases hy : y s with
  | done a s' =>
      rw [hy] at hdone
      obtain ⟨hs', hgrows⟩ := h.done hy
      exact (hk a s' hy hs' hgrows).2 b s'' hdone
  | fail e s' =>
      rw [hy] at hdone
      cases hdone
  | exhausted =>
      rw [hy] at hdone
      cases hdone

theorem tracksTo_pure {post : α → State → Prop} (hs : K.Holds s) {a : α} (h : post a s) :
    K.TracksTo d post (pure a) (pure a) s := by
  refine ⟨tracks_pure hs a, fun b s' hdone => ?_⟩
  cases hdone
  exact h

/-- Steps that keep an invariant keep it for as long as they are repeated. -/
theorem tracks_iterate {I : β → State → Prop} {step step' : β → Effect (β ⊕ α)}
    (h : ∀ b s, K.Holds s → I b s →
      K.TracksTo d (fun r s' => ∀ b', r = .inl b' → I b' s') (step b) (step' b) s)
    (n : Nat) (b : β) (hs : K.Holds s) (hI : I b s) :
    K.Tracks d (iterate step n b) (iterate step' n b) s := by
  induction n generalizing b s with
  | zero => exact tracks_exhausted
  | succ n ih =>
      rw [iterate_succ, iterate_succ]
      obtain ⟨hstep, hinv⟩ := h b s hs hI
      refine hstep.bind ?_
      rintro (b' | c) s' hdone hs' -
      · exact ih b' hs' (hinv _ s' hdone b' rfl)
      · exact tracks_pure hs' c

theorem tracks_iterate_grows {step step' : β → Effect (β ⊕ α)}
    (h : ∀ b s', K.Holds s' → s.Grows d s' → K.Tracks d (step b) (step' b) s')
    (n : Nat) (b : β) (hs : K.Holds s) :
    K.Tracks d (iterate step n b) (iterate step' n b) s := by
  refine tracks_iterate (I := fun _ s' => s.Grows d s') (fun b s' hs' hI => ?_) n b hs (.refl d s)
  have hstep := h b s' hs' hI
  exact ⟨hstep, fun r s'' hdone _ _ => hI.trans (hstep.done hdone).2⟩

end Discipline

end Eval

end SmallScript
