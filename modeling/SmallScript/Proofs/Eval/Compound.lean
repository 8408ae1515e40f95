import SmallScript.Proofs.Eval.Settling
import Mathlib

namespace SmallScript

/-- Built from names and constants by property access, and by parentheses. -/
inductive Expr.IsPath : Expr → Prop where
  | ident (x : String) : IsPath (.ident x)
  | number (x : Float) : IsPath (.number x)
  | bool (b : Bool) : IsPath (.bool b)
  | null : IsPath .null
  | string (s : String) : IsPath (.string s)
  | paren {e : Expr} (he : e.IsPath) : IsPath (.paren e)
  | field {e : Expr} (he : e.IsPath) (x : String) : IsPath (.field e x)
  | index {e k : Expr} (he : e.IsPath) (hk : k.IsPath) : IsPath (.index e k)

def AssignOp.binary? : AssignOp → Option BinaryOp
  | set => none
  | add => some .add
  | sub => some .sub
  | mul => some .mul
  | div => some .div
  | rem => some .rem

theorem Memory.binary_of_binary? {op : AssignOp} {bop : BinaryOp} (hop : op.binary? = some bop)
    (m : Memory) (v w : Value) : m.binary bop v w = .ok (m.compound op v w) := by
  cases op <;> cases hop <;> rfl

namespace Effect

variable {α β : Type}

def IsQuery (x : Effect α) : Prop := ∃ q : Memory → Except Fault α, x = query q

theorem isQuery_pure (a : α) : IsQuery (pure a) := ⟨fun _ => .ok a, rfl⟩

theorem isQuery_look (g : Memory → α) : (look g).IsQuery := ⟨fun m => .ok (g m), rfl⟩

theorem query_bind_apply (q : Memory → Except Fault α) (g : α → Effect β) (s : State) :
    (query q >>= g) s =
      match q s.memory with
      | .ok a => g a s
      | .error e => .fail e s := by
  rw [bind_apply, query]
  cases q s.memory <;> rfl

theorem IsQuery.bind {x : Effect α} {g : α → Effect β} (hx : x.IsQuery) (hg : ∀ a, (g a).IsQuery) :
    (x >>= g).IsQuery := by
  obtain ⟨q, rfl⟩ := hx
  choose r hr using hg
  refine ⟨fun m => q m >>= fun a => r a m, ?_⟩
  funext s
  rw [query_bind_apply, query]
  cases hq : q s.memory with
  | ok a => simp only [hr]; rfl
  | error e => rfl

theorem IsQuery.ends {x : Effect α} (hx : x.IsQuery) (s : State) :
    (∃ a, x s = .done a s) ∨ ∃ e, x s = .fail e s := by
  obtain ⟨q, rfl⟩ := hx
  rw [query]
  cases q s.memory with
  | ok a => exact .inl ⟨a, rfl⟩
  | error e => exact .inr ⟨e, rfl⟩

theorem IsQuery.bind_twice {x : Effect α} (hx : x.IsQuery) (g : α → α → Effect β) :
    (x >>= fun a => x >>= fun b => g a b) = x >>= fun a => g a a := by
  obtain ⟨q, rfl⟩ := hx
  funext s
  rw [query_bind_apply, query_bind_apply]
  cases hq : q s.memory with
  | ok a => simp only [query_bind_apply, hq]
  | error e => rfl

end Effect

namespace Eval

open Effect
open Filter (atTop eventually_congr eventually_const eventually_map map_add_atTop_eq_nat
  tendsto_add_atTop_nat)

variable {host : Host} {f : FrameRef} {s : State} {t e : Expr}

theorem isQuery_textOf (v : Value) : (textOf v).IsQuery := isQuery_look _

theorem isQuery_getProperty (v : Value) (key : String) : (getProperty v key).IsQuery :=
  ⟨fun m => m.getProperty v key, rfl⟩

theorem isQuery_read (f : FrameRef) (target : Target) : (target.read f).IsQuery := by
  cases target with
  | name x => exact ⟨fun m => m.readName f x, rfl⟩
  | property base key => exact isQuery_getProperty base key

/-- From some fuel on the expression does the same, in every state. -/
def Steady (host : Host) (f : FrameRef) (e : Expr) (x : Effect Value) : Prop :=
  ∀ᶠ n in atTop, (evaluator host n).expr f e = x

theorem steady_of_step {x : Effect Value}
    (h : ∀ᶠ n in atTop, evalExpr host (evaluator host n) f e = x) : Steady host f e x := by
  have hmap : ∀ᶠ n in Filter.map (· + 1) atTop, (evaluator host n).expr f e = x := eventually_map.mpr h
  rwa [map_add_atTop_eq_nat] at hmap

theorem Steady.settles_iff {x : Effect Value} (h : Steady host f e x)
    {o : Outcome State Value} : Settles host f e s o ↔ o ≠ .exhausted ∧ x s = o := by
  rw [settles_iff_eventually]
  refine and_congr_right fun _ => ?_
  rw [eventually_congr (h.mono fun n hn => by rw [hn]), eventually_const]

/-- With enough fuel a path only looks at memory. -/
theorem exists_steady (host : Host) (f : FrameRef) (h : e.IsPath) :
    ∃ x : Effect Value, x.IsQuery ∧ Steady host f e x := by
  have hconst (e : Expr) (v : Value) (hv : ∀ E, evalExpr host E f e = pure v) :
      ∃ x : Effect Value, x.IsQuery ∧ Steady host f e x :=
    ⟨pure v, isQuery_pure v, steady_of_step (.of_forall fun n => hv _)⟩
  induction h with
  | ident x =>
      exact ⟨readName f x, isQuery_read f (.name x), steady_of_step (.of_forall fun n => rfl)⟩
  | number x => exact hconst _ _ fun _ => rfl
  | bool b => exact hconst _ _ fun _ => rfl
  | null => exact hconst _ _ fun _ => rfl
  | string s => exact hconst _ _ fun _ => rfl
  | paren _ ih =>
      obtain ⟨x, hx, hsteady⟩ := ih
      exact ⟨x, hx, steady_of_step hsteady⟩
  | field _ key ih =>
      obtain ⟨x, hx, hsteady⟩ := ih
      refine ⟨x >>= fun v => getProperty v key, hx.bind fun v => isQuery_getProperty v key, ?_⟩
      exact steady_of_step (hsteady.mono fun n hn => by rw [evalExpr, hn])
  | index _ _ ihe ihk =>
      obtain ⟨x, hx, he⟩ := ihe
      obtain ⟨y, hy, hk⟩ := ihk
      refine ⟨x >>= fun base => y >>= fun v => textOf v >>= fun key => getProperty base key, ?_, ?_⟩
      · exact hx.bind fun base => hy.bind fun v => (isQuery_textOf v).bind fun key =>
          isQuery_getProperty base key
      · exact steady_of_step (he.and hk |>.mono fun n hn => by rw [evalExpr, evalIndex, hn.1, hn.2])

/-- The place that a path denotes, and its value as what is read there. -/
theorem exists_place (host : Host) (f : FrameRef) (h : t.IsPath) (ht : t.isTarget = true) :
    ∃ place : Effect Target, place.IsQuery ∧
      (∀ᶠ n in atTop, evalTarget (evaluator host n) f t = place) ∧
        Steady host f t (place >>= Target.read f) := by
  induction h with
  | ident x =>
      exact ⟨pure (.name x), isQuery_pure _, .of_forall fun n => rfl,
        steady_of_step (.of_forall fun n => rfl)⟩
  | number | bool | null | string => cases ht
  | paren _ ih =>
      obtain ⟨place, hplace, htarget, hsteady⟩ := ih ht
      exact ⟨place, hplace, htarget, steady_of_step hsteady⟩
  | field he key =>
      obtain ⟨x, hx, hsteady⟩ := exists_steady host f he
      refine ⟨x >>= fun base => pure (.property base key), hx.bind fun _ => isQuery_pure _, ?_, ?_⟩
      · exact hsteady.mono fun n hn => by rw [evalTarget, hn]
      · refine steady_of_step (hsteady.mono fun n hn => ?_)
        rw [evalExpr, hn, bind_assoc]
        rfl
  | index he hk =>
      obtain ⟨x, hx, he⟩ := exists_steady host f he
      obtain ⟨y, hy, hk⟩ := exists_steady host f hk
      refine ⟨x >>= fun base => y >>= fun v => textOf v >>= fun key => pure (.property base key),
        ?_, ?_, ?_⟩
      · exact hx.bind fun base => hy.bind fun v => (isQuery_textOf v).bind fun _ => isQuery_pure _
      · exact he.and hk |>.mono fun n hn => by rw [evalTarget, hn.1, hn.2]
      · refine steady_of_step (he.and hk |>.mono fun n hn => ?_)
        rw [evalExpr, evalIndex, hn.1, hn.2]
        simp only [bind_assoc]
        rfl

theorem expr_succ (n : Nat) (f : FrameRef) (e : Expr) :
    (evaluator host (n + 1)).expr f e = evalExpr host (evaluator host n) f e :=
  rfl

section

variable {E : Evaluator} {op : AssignOp} {bop : BinaryOp}

theorem evalBinary_of_binary? (hop : op.binary? = some bop) (l r : Expr) :
    evalBinary E f bop l r =
      E.expr f l >>= fun v => E.expr f r >>= fun w => look fun m => m.compound op v w := by
  have hquery (v w : Value) :
      (query fun m => m.binary bop v w) = look fun m => m.compound op v w := by
    simp only [Memory.binary_of_binary? hop]
    rfl
  simp only [← hquery]
  cases op <;> cases hop <;> rfl

theorem evalAssign_of_binary? (hop : op.binary? = some bop) (l r : Expr) :
    evalAssign E f op l r =
      evalTarget E f l >>= fun target => target.read f >>= fun old => E.expr f r >>= fun new =>
        (look fun m => m.compound op old new) >>= fun v => target.write f v >>= fun _ => pure v := by
  cases op <;> cases hop <;> simp only [evalAssign]

theorem evalUnary_plus (e : Expr) :
    evalUnary E f .plus e = E.expr f e >>= fun v => look fun m => m.unary .plus v :=
  rfl

def updateAt (f : FrameRef) (op : UpdateOp) (target : Target) : Effect Value := do
  let old ← target.read f
  let x ← look fun m => m.toNumber old
  target.write f (.number (updated op x).1)
  return .number (updated op x).2

theorem evalUpdate_eq (op : UpdateOp) (e : Expr) :
    evalUpdate E f op e = evalTarget E f e >>= updateAt f op :=
  rfl

theorem evalAssign_set (l r : Expr) :
    evalAssign E f .set l r =
      evalTarget E f l >>= fun target => E.expr f r >>= fun v => target.write f v >>= fun _ =>
        pure v :=
  rfl

end

theorem assign_eventually {op : AssignOp} {bop : BinaryOp} (hop : op.binary? = some bop)
    (h : t.IsPath) (ht : t.isTarget = true) (e : Expr) :
    ∀ᶠ n in atTop, (evaluator host (n + 1)).expr f (.assign op t e) =
      (evaluator host (n + 2)).expr f (.assign .set t (.binary bop t e)) := by
  obtain ⟨place, hplace, htarget, hvalue⟩ := exists_place host f h ht
  have htarget' := (tendsto_add_atTop_nat 1).eventually htarget
  filter_upwards [htarget, htarget', hvalue] with n hn hn' hv
  rw [expr_succ, expr_succ, evalExpr, evalExpr, evalAssign_of_binary? hop, evalAssign_set, hn, hn']
  simp only [expr_succ, evalExpr, evalBinary_of_binary? hop, hv, bind_assoc]
  exact (hplace.bind_twice fun target target' => target'.read f >>= fun old =>
    (evaluator host n).expr f e >>= fun new => (look fun m => m.compound op old new) >>= fun v =>
      target.write f v >>= fun _ => pure v).symm

theorem steady_update {place : Effect Target}
    (htarget : ∀ᶠ n in atTop, evalTarget (evaluator host n) f t = place) (op : UpdateOp) :
    Steady host f (.update op t) (place >>= updateAt f op) :=
  steady_of_step (htarget.mono fun n hn => by rw [evalExpr, evalUpdate_eq, hn])

theorem steady_unary_plus {x : Effect Value} (h : Steady host f t x) :
    Steady host f (.unary .plus t) (x >>= fun v => look fun m => m.unary .plus v) :=
  steady_of_step (h.mono fun n hn => by rw [evalExpr, evalUnary_plus, hn])

theorem steady_set_binary {aop : AssignOp} {bop : BinaryOp} (hop : aop.binary? = some bop)
    {op : UpdateOp} {g : Memory → Value → Value}
    (hstored : ∀ (m : Memory) v,
      m.compound aop (g m v) (.number 1) = .number (updated op (m.toNumber v)).1)
    (hresult : ∀ x, (updated op x).2 = (updated op x).1) {place : Effect Target}
    (hplace : place.IsQuery) (htarget : ∀ᶠ n in atTop, evalTarget (evaluator host n) f t = place)
    (he : Steady host f e (place >>= fun target => target.read f >>= fun old =>
      look fun m => g m old)) :
    Steady host f (.assign .set t (.binary bop e (.number 1))) (place >>= updateAt f op) := by
  have hone : Steady host f (.number 1) (pure (.number 1)) :=
    steady_of_step (.of_forall fun n => rfl)
  have hbinary : Steady host f (.binary bop e (.number 1))
      (place >>= fun target => target.read f >>= fun old => (look fun m => g m old) >>= fun v =>
        look fun m => m.compound aop v (.number 1)) := by
    refine steady_of_step ((he.and hone).mono fun n hn => ?_)
    rw [evalExpr, evalBinary_of_binary? hop, hn.1, hn.2]
    simp only [bind_assoc, pure_bind]
  refine steady_of_step ((htarget.and hbinary).mono fun n hn => ?_)
  rw [evalExpr, evalAssign_set, hn.1, hn.2]
  simp only [bind_assoc]
  rw [hplace.bind_twice fun target target' => target'.read f >>= fun old =>
    (look fun m => g m old) >>= fun v => (look fun m => m.compound aop v (.number 1)) >>=
      fun v => target.write f v >>= fun _ => pure v]
  refine congrArg (place >>= ·) (funext fun target => ?_)
  refine congrArg (target.read f >>= ·) (funext fun old => funext fun s => ?_)
  simp only [bind_apply, look, Outcome.bind, hstored, hresult]

theorem updateAt_apply (op : UpdateOp) {target : Target} {old : Value}
    (h : target.read f s = .done old s) :
    updateAt f op target s =
      (target.write f (.number (updated op (s.memory.toNumber old)).1) s).bind fun _ s' =>
        .done (.number (updated op (s.memory.toNumber old)).2) s' := by
  rw [updateAt, bind_apply, h]
  simp only [Outcome.bind, bind_apply, look]
  rfl

/-- From the state `s` the expressions come to the same end, if to any: with the same value or fault
and in the same state. -/
def SettleAlike (host : Host) (f : FrameRef) (s : State) (e e' : Expr) : Prop :=
  ∀ o, Settles host f e s o ↔ Settles host f e' s o

theorem Steady.settleAlike {x : Effect Value} (h : Steady host f t x) (h' : Steady host f e x) :
    SettleAlike host f s t e :=
  fun _ => h.settles_iff.trans h'.settles_iff.symm

@[mk_iff]
structure Lags (host : Host) (f : FrameRef) (s : State) (t : Expr) (op op' : UpdateOp) : Prop where
  fail : ∀ e s', Settles host f (.update op t) s (.fail e s') ↔
    Settles host f (.update op' t) s (.fail e s')
  done : ∀ v s', Settles host f (.update op t) s (.done v s') ↔
    (∃ w, Settles host f (.update op' t) s (.done w s')) ∧
      ∃ old, Settles host f t s (.done old s) ∧ v = .number (s.memory.toNumber old)

theorem lags_of_updated {op op' : UpdateOp} (hop : ∀ x, updated op x = ((updated op' x).1, x))
    (h : t.IsPath) (ht : t.isTarget = true) : Lags host f s t op op' := by
  obtain ⟨place, hplace, htarget, hvalue⟩ := exists_place host f h ht
  rw [lags_iff]
  simp only [(steady_update htarget _).settles_iff, hvalue.settles_iff, bind_apply]
  rcases hplace.ends s with ⟨target, hs⟩ | ⟨e, hs⟩
  · rcases (isQuery_read f target).ends s with ⟨old, hread⟩ | ⟨e, hread⟩
    · simp only [hs, Outcome.bind, updateAt_apply _ hread, hread, hop]
      cases target.write f (.number (updated op' (s.memory.toNumber old)).1) s with
      | done _ s₁ => simp [and_comm, eq_comm]
      | fail e s₁ => simp
      | exhausted => simp
    · have hfail (op : UpdateOp) : updateAt f op target s = .fail e s := by
        rw [updateAt, bind_apply, hread]
        rfl
      simp [hs, hfail, hread, Outcome.bind]
  · simp [hs, Outcome.bind]

/-- Compound assignments and updates stand for plain operators, whatever the value on the right does
to the target. -/
theorem compound_settles (host : Host) (f : FrameRef) (s : State) {t : Expr} (h : t.IsPath)
    (ht : t.isTarget = true) :
    (∀ op bop, op.binary? = some bop → ∀ e,
        SettleAlike host f s (.assign op t e) (.assign .set t (.binary bop t e))) ∧
      SettleAlike host f s (.update .preIncrement t)
        (.assign .set t (.binary .add (.unary .plus t) (.number 1))) ∧
      SettleAlike host f s (.update .preDecrement t)
        (.assign .set t (.binary .sub t (.number 1))) ∧
      Lags host f s t .postIncrement .preIncrement ∧
      Lags host f s t .postDecrement .preDecrement := by
  obtain ⟨place, hplace, htarget, hvalue⟩ := exists_place host f h ht
  have hadd : AssignOp.add.binary? = some .add := rfl
  have hsub : AssignOp.sub.binary? = some .sub := rfl
  refine ⟨fun op bop hop e o => ?_, ?_, ?_, lags_of_updated (fun _ => rfl) h ht,
    lags_of_updated (fun _ => rfl) h ht⟩
  · exact settles_congr 1 2 ((assign_eventually hop h ht e).mono fun n hn => by rw [hn])
  · refine (steady_update htarget .preIncrement).settleAlike (steady_set_binary hadd
      (g := fun m v => m.unary .plus v) (fun _ _ => rfl) (fun _ => rfl) hplace htarget ?_)
    simpa only [bind_assoc] using steady_unary_plus hvalue
  · refine (steady_update htarget .preDecrement).settleAlike (steady_set_binary hsub
      (g := fun _ v => v) (fun _ _ => rfl) (fun _ => rfl) hplace htarget ?_)
    have hlook (x : Effect Value) : (x >>= fun v => look fun _ => v) = x := bind_pure x
    simpa only [hlook] using hvalue

/-- `a.n++` answers with the number in `a.n`, and leaves what `a.n = +a.n + 1` leaves. -/
theorem compound_settles_field :
    ∃ host f s s',
      Settles host f (.update .postIncrement (.field (.ident "a") "n")) s (.done (.number 1) s') ∧
      Settles host f (.assign .set (.field (.ident "a") "n")
        (.binary .add (.unary .plus (.field (.ident "a") "n")) (.number 1))) s
          (.done (.number (1 + 1)) s') := by
  let s : State :=
    ⟨⟨#[], #[⟨.plain, [("n", .number 1)]⟩], #[], #[⟨[("a", ⟨.object 0, false⟩)], none, true⟩]⟩,
      "", 0, 0⟩
  let s' : State :=
    ⟨⟨#[], #[⟨.plain, [("n", .number (1 + 1))]⟩], #[], #[⟨[("a", ⟨.object 0, false⟩)], none, true⟩]⟩,
      "", 0, 0⟩
  obtain ⟨-, hincrement, -, hlags, -⟩ := compound_settles ⟨8, fun _ => none⟩ 0 s
    (.field (.ident "a") "n") rfl
  have hfront : Settles ⟨8, fun _ => none⟩ 0 (.update .preIncrement (.field (.ident "a") "n")) s
      (.done (.number (1 + 1)) s') := ⟨nofun, 3, rfl⟩
  have hold : Settles ⟨8, fun _ => none⟩ 0 (.field (.ident "a") "n") s (.done (.number 1) s) :=
    ⟨nofun, 3, rfl⟩
  exact ⟨_, _, s, s', (hlags.done _ _).mpr ⟨⟨_, hfront⟩, _, hold, rfl⟩, (hincrement _).mp hfront⟩

end Eval

end SmallScript
