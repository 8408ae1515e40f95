import SmallScript.Proofs.Early.Declarations
import Mathlib

namespace SmallScript.Early

def Analyzer.place (a : Analyzer) : Place := ⟨0 < a.loopDepth, 0 < a.functionDepth⟩

/-- What every part of an accepted program satisfies. -/
def Valid : Part → Prop
  | .expr (.update _ e) => e.isTarget = true
  | .expr (.assign _ l _) => l.isTarget = true
  | .stmt p .breakLoop | .stmt p .continueLoop => p.inLoop = true
  | .stmt p (.returnValue _) => p.inFunction = true
  | .stmt _ (.decl .constDecl ds) => ∀ d ∈ ds, d.2.isSome = true
  | .scope s => s.Distinct ∧ s.Apart
  | _ => True

def Accepts (c : Check Unit) (a b : Analyzer) : Prop := c a = .ok () b

@[simp] theorem accepts_pure (a b : Analyzer) : Accepts (pure ()) a b ↔ a = b := by
  simp [Accepts, pure, EStateM.pure]

@[simp] theorem accepts_throw (e : EarlyError) (a b : Analyzer) : ¬Accepts (throw e) a b := by
  simp [Accepts, throw, throwThe, MonadExceptOf.throw, EStateM.throw]

@[simp] theorem accepts_bind (x y : Check Unit) (a b : Analyzer) :
    Accepts (x >>= fun _ => y) a b ↔ ∃ c, Accepts x a c ∧ Accepts y c b := by
  simp only [Accepts, bind, EStateM.bind]
  cases x a <;> simp

@[simp] theorem accepts_get_bind (f : Analyzer → Check Unit) (a b : Analyzer) :
    Accepts (get >>= f) a b ↔ Accepts (f a) a b := Iff.rfl

@[simp] theorem accepts_refuseUnless (p : Bool) (e : EarlyError) (a b : Analyzer) :
    Accepts (refuseUnless p e) a b ↔ p = true ∧ a = b := by
  cases p with
  | true => simp [refuseUnless]
  | false => simp [refuseUnless]

@[simp] theorem accepts_setScopes (scopes : List Names) (a b : Analyzer) :
    Accepts (setScopes scopes) a b ↔ { a with scopes } = b := by
  simp [Accepts, setScopes, modify, modifyGet, MonadStateOf.modifyGet, EStateM.modifyGet]

theorem accepts_around (enter : Analyzer → Analyzer) (leave : Analyzer → Analyzer → Analyzer)
    (c : Check Unit) (a b : Analyzer) :
    Accepts (around enter leave c) a b ↔ ∃ d, Accepts c (enter a) d ∧ leave a d = b := by
  simp only [Accepts, around]
  cases c (enter a) <;> simp

theorem accepts_refuseUnless_bind (p : Bool) (e : EarlyError) (y : Check Unit) (a b : Analyzer) :
    Accepts (refuseUnless p e >>= fun _ => y) a b ↔ p = true ∧ Accepts y a b := by
  simp [and_assoc]

theorem refuseUnless_eq_error (p : Bool) (e e' : EarlyError) (a b : Analyzer)
    (h : refuseUnless p e a = .error e' b) : e' = e := by
  cases p with
  | true => cases h
  | false =>
      cases h
      rfl

theorem accepts_declareLexical (x : String) (a b : Analyzer) :
    Accepts (declareLexical x) a b ↔
      ∃ scopes, record (.lexical x) a.scopes = some scopes ∧ { a with scopes } = b := by
  obtain ⟨l, f, scopes⟩ := a
  rw [declareLexical, accepts_get_bind]
  cases scopes with
  | nil => simp [record, Decl.isVar]
  | cons s outer =>
      rw [accepts_refuseUnless_bind, accepts_setScopes]
      by_cases h : s.Admits (.lexical x)
      · have hx : x ∉ s.lexical ∧ x ∉ s.vars ∧ x ∉ s.functions := h
        simp [record, h, hx, Decl.isVar, Names.add]
      · have hx : ¬(x ∉ s.lexical ∧ x ∉ s.vars ∧ x ∉ s.functions) := h
        simp [record, h, hx]

theorem accepts_declareFunction (x : String) (a b : Analyzer) :
    Accepts (declareFunction x) a b ↔
      ∃ scopes, record (.function x) a.scopes = some scopes ∧ { a with scopes } = b := by
  obtain ⟨l, f, scopes⟩ := a
  rw [declareFunction, accepts_get_bind]
  cases scopes with
  | nil => simp [record, Decl.isVar]
  | cons s outer =>
      rw [accepts_refuseUnless_bind]
      cases hs : s.isBoundary with
      | true => by_cases hl : x ∈ s.lexical <;> simp [record, Names.Admits, Names.add, hs, hl]
      | false =>
          simp only [Bool.false_eq_true, if_false]
          rw [accepts_refuseUnless_bind, accepts_setScopes]
          by_cases hl : x ∈ s.lexical <;> by_cases hv : x ∈ s.vars <;>
            simp [record, Names.Admits, Names.add, Decl.isVar, hs, hl, hv]

theorem throughScopes_arrived_iff (x : String) (scopes after : List Names) :
    throughScopes x scopes = (after, true) ↔ record (.var x) scopes = some after := by
  induction scopes generalizing after with
  | nil => simp [throughScopes, record, Decl.isVar]
  | cons s outer ih =>
      by_cases h : s.Admits (.var x)
      · have hx : ¬(x ∈ s.lexical ∨ !s.isBoundary ∧ x ∈ s.functions) := by
          simpa [Names.Admits, imp_iff_not_or] using h
        rw [throughScopes, if_neg hx, record, if_pos h]
        cases hs : s.isBoundary with
        | true => simp [Names.add, hs]
        | false =>
            rcases ho : throughScopes x outer with ⟨o, arrived⟩
            cases arrived with
            | true => simp [Names.add, hs, Decl.isVar, (ih o).mp ho]
            | false =>
                have hr : record (.var x) outer = none := by
                  cases hr : record (.var x) outer with
                  | none => rfl
                  | some o' => simpa [ho] using (ih o').mpr hr
                simp [Decl.isVar, hr]
      · have hx : x ∈ s.lexical ∨ !s.isBoundary ∧ x ∈ s.functions := by
          simpa [Names.Admits, imp_iff_not_or] using h
        rw [throughScopes, if_pos hx, record, if_neg h]
        simp

theorem accepts_declareVar (x : String) (a b : Analyzer) :
    Accepts (declareVar x) a b ↔
      ∃ scopes, record (.var x) a.scopes = some scopes ∧ { a with scopes } = b := by
  simp only [← throughScopes_arrived_iff]
  rw [declareVar, accepts_get_bind]
  rcases throughScopes x a.scopes with ⟨after, arrived⟩
  cases arrived <;> simp

def AllValid (xs : List Part) : Prop := ∀ x ∈ xs, Valid x

@[simp] theorem allValid_nil : AllValid [] := by simp [AllValid]

@[simp] theorem allValid_cons (x : Part) (xs : List Part) :
    AllValid (x :: xs) ↔ Valid x ∧ AllValid xs := by simp [AllValid]

@[simp] theorem allValid_append (xs ys : List Part) :
    AllValid (xs ++ ys) ↔ AllValid xs ∧ AllValid ys := by
  simp only [AllValid, List.mem_append, or_imp, forall_and]

/-- As long as there is a scope, the check does not miss one. -/
def Housed (c : Check Unit) : Prop := ∀ a b, a.scopes ≠ [] → c a ≠ .error .noScope b

namespace Housed

variable {c d : Check Unit}

theorem refuseUnless (p : Bool) (e : EarlyError) (he : e ≠ .noScope) :
    Housed (refuseUnless p e) :=
  fun _ _ _ h => he (refuseUnless_eq_error _ _ _ _ _ h).symm

theorem setScopes (scopes : List Names) : Housed (setScopes scopes) := nofun

theorem get_bind {f : Analyzer → Check Unit} (h : ∀ a b, a.scopes ≠ [] → f a a ≠ .error .noScope b) :
    Housed (get >>= f) := h

theorem bind (hc : Housed c) (hd : Housed d)
    (hkeeps : ∀ a b, a.scopes ≠ [] → Accepts c a b → b.scopes ≠ []) :
    Housed (c >>= fun _ => d) := by
  intro a b ha h
  simp only [Bind.bind, EStateM.bind] at h
  cases hca : c a with
  | ok _ a' =>
      rw [hca] at h
      exact hd a' b (hkeeps a a' ha hca) h
  | error e a' =>
      rw [hca] at h
      cases h
      exact hc a _ ha hca

theorem around (hc : Housed c) {enter : Analyzer → Analyzer}
    {leave : Analyzer → Analyzer → Analyzer}
    (henter : ∀ a, a.scopes ≠ [] → (enter a).scopes ≠ []) : Housed (around enter leave c) := by
  intro a b ha h
  simp only [Early.around] at h
  split at h
  · cases h
  · cases h
    exact hc _ _ (henter a ha) ‹_›

end Housed

theorem housed_refuse_bind (p : Bool) (e : EarlyError) (he : e ≠ .noScope) {d : Check Unit}
    (hd : Housed d) : Housed (refuseUnless p e >>= fun _ => d) := by
  refine (Housed.refuseUnless p e he).bind hd fun a b ha h => ?_
  rw [accepts_refuseUnless] at h
  exact h.2 ▸ ha

theorem housed_declareLexical (x : String) : Housed (declareLexical x) := by
  refine Housed.get_bind fun a b ha => ?_
  cases hs : a.scopes with
  | nil => contradiction
  | cons s outer => exact housed_refuse_bind _ (.redeclared x) nofun (.setScopes _) a b ha

theorem housed_declareVar (x : String) : Housed (declareVar x) :=
  Housed.get_bind fun _ _ _ h => nomatch refuseUnless_eq_error _ _ _ _ _ h

theorem housed_declareFunction (x : String) : Housed (declareFunction x) := by
  refine Housed.get_bind fun a b ha => ?_
  cases hs : a.scopes with
  | nil => contradiction
  | cons s outer =>
      refine housed_refuse_bind _ (.redeclared x) nofun ?_ a b ha
      split
      · exact .setScopes _
      · exact housed_refuse_bind _ (.redeclared x) nofun (.setScopes _)

/-- The check succeeds exactly where `V` holds of the place and the scopes accept the declarations,
which it records. -/
structure Checks (c : Check Unit) (V : Place → Prop) (ds : List Decl) : Prop where
  accepts : ∀ a b, Accepts c a b ↔
    V a.place ∧ ∃ scopes, recordAll ds a.scopes = some scopes ∧ { a with scopes } = b
  housed : Housed c

namespace Checks

variable {c d : Check Unit} {V W : Place → Prop} {ds es : List Decl}

theorem congr (h : Checks c V ds) (hV : ∀ p, V p ↔ W p) : Checks c W ds :=
  ⟨fun a b => by rw [h.accepts a b, hV], h.housed⟩

theorem cast (h : Checks c V ds) (hV : ∀ p, V p ↔ W p) (hds : ds = es) : Checks c W es :=
  hds ▸ h.congr hV

theorem keeps (h : Checks c V ds) {a b : Analyzer} (ha : a.scopes ≠ []) (hb : Accepts c a b) :
    b.scopes ≠ [] := by
  obtain ⟨-, scopes, hs, rfl⟩ := (h.accepts a b).mp hb
  exact recordAll_ne_nil hs ha

theorem nothing : Checks (pure ()) (fun _ => True) [] :=
  ⟨fun a b => by simp [recordAll], nofun⟩

theorem seq (hc : Checks c V ds) (hd : Checks d W es) :
    Checks (c >>= fun _ => d) (fun p => V p ∧ W p) (ds ++ es) := by
  refine ⟨fun a b => ?_, hc.housed.bind hd.housed fun _ _ => hc.keeps⟩
  simp only [accepts_bind, hc.accepts _ _, hd.accepts _ _, recordAll_append,
    Option.bind_eq_some_iff]
  constructor
  · rintro ⟨_, ⟨hV, scopes, hs, rfl⟩, hW, after, ha, rfl⟩
    exact ⟨⟨hV, hW⟩, after, ⟨scopes, hs, ha⟩, rfl⟩
  · rintro ⟨⟨hV, hW⟩, after, ⟨scopes, hs, ha⟩, rfl⟩
    exact ⟨_, ⟨hV, scopes, hs, rfl⟩, hW, after, ha, rfl⟩

theorem refuseUnless (p : Bool) (e : EarlyError) (he : e ≠ .noScope) :
    Checks (refuseUnless p e) (fun _ => p = true) [] :=
  ⟨fun a b => by simp [recordAll], .refuseUnless p e he⟩

theorem refuseUnlessAt (f : Analyzer → Bool) (q : Place → Bool) (hq : ∀ a, f a = q a.place)
    (e : EarlyError) (he : e ≠ .noScope) :
    Checks (get >>= fun a => Early.refuseUnless (f a) e) (fun p => q p = true) [] := by
  refine ⟨fun a b => ?_, .get_bind fun a b ha => Housed.refuseUnless _ e he a b ha⟩
  rw [accepts_get_bind]
  simp [hq, recordAll]

theorem record {d : Decl} (h : ∀ a b, Accepts c a b ↔
    ∃ scopes, Early.record d a.scopes = some scopes ∧ { a with scopes } = b) (hc : Housed c) :
    Checks c (fun _ => True) [d] :=
  ⟨fun a b => by simp [h, recordAll], hc⟩

theorem declareLexical (x : String) : Checks (declareLexical x) (fun _ => True) [.lexical x] :=
  record (accepts_declareLexical x) (housed_declareLexical x)

theorem declareVar (x : String) : Checks (declareVar x) (fun _ => True) [.var x] :=
  record (accepts_declareVar x) (housed_declareVar x)

theorem declareFunction (x : String) :
    Checks (declareFunction x) (fun _ => True) [.function x] :=
  record (accepts_declareFunction x) (housed_declareFunction x)

theorem inLoop (h : Checks c V ds) : Checks (inLoop c) (fun p => V p.loop) ds := by
  refine ⟨fun a b => ?_, h.housed.around fun _ => id⟩
  rw [Early.inLoop, accepts_around]
  constructor
  · rintro ⟨_, hc, rfl⟩
    obtain ⟨hV, scopes, hs, rfl⟩ := (h.accepts _ _).mp hc
    exact ⟨by simpa [Analyzer.place, Place.loop] using hV, scopes, hs, rfl⟩
  · rintro ⟨hV, scopes, hs, rfl⟩
    refine ⟨_, (h.accepts _ _).mpr ⟨?_, scopes, hs, rfl⟩, rfl⟩
    simpa [Analyzer.place, Place.loop] using hV

/-- A block is valid on its own, and its `var` declarations go on outward. -/
theorem inScope {body : List Stmt} (h : Checks c V (decls.declsOf body)) :
    Checks (inScope c) (fun p => Valid (.scope (.block body)) ∧ V p)
      ((decls.declsOf body).filter Decl.isVar) := by
  have hproper : (Scope.block body).Proper := ⟨List.nodup_nil, nofun, fun _ => rfl⟩
  have hvalid := admitsAll_start_iff _ hproper
  refine ⟨fun a b => ?_, h.housed.around fun _ _ => List.cons_ne_nil _ _⟩
  rw [Early.inScope, accepts_around]
  constructor
  · rintro ⟨_, hc, rfl⟩
    obtain ⟨hV, scopes, hs, rfl⟩ := (h.accepts _ _).mp hc
    obtain ⟨hadmits, outer, houter, rfl⟩ := (recordAll_inner _ rfl _ _ _).mp hs
    exact ⟨⟨hvalid.mp hadmits, hV⟩, outer, houter, rfl⟩
  · rintro ⟨⟨hbody, hV⟩, outer, houter, rfl⟩
    have hs := (recordAll_inner (Names.fresh false) rfl _ _ _).mpr
      ⟨hvalid.mpr hbody, outer, houter, rfl⟩
    exact ⟨_, (h.accepts _ _).mpr ⟨hV, _, hs, rfl⟩, rfl⟩

/-- A function body is valid on its own, in no loop, and declares nothing outside. -/
theorem inFunction {params : List String} {body : List Stmt}
    (h : Checks c V (decls.declsOf body)) :
    Checks (inFunction params c)
      (fun _ => Valid (.scope (.function params body)) ∧ V .body) [] := by
  have hproper : (Scope.function params body).Proper := ⟨List.nodup_nil, nofun, nofun⟩
  have hvalid := admitsAll_start_iff _ hproper
  refine ⟨fun a b => ?_, h.housed.around fun _ _ => List.cons_ne_nil _ _⟩
  have hplace : Analyzer.place ⟨0, a.functionDepth + 1,
      { Names.fresh true with vars := params } :: a.scopes⟩ = .body := by
    simp [Analyzer.place, Place.body]
  rw [Early.inFunction, accepts_around]
  constructor
  · rintro ⟨_, hc, rfl⟩
    obtain ⟨hV, scopes, hs, rfl⟩ := (h.accepts _ _).mp hc
    obtain ⟨hadmits, rfl⟩ := (recordAll_boundary _ rfl _ _ _).mp hs
    exact ⟨⟨hvalid.mp hadmits, hplace ▸ hV⟩, a.scopes, rfl, rfl⟩
  · rintro ⟨⟨hbody, hV⟩, scopes, hs, rfl⟩
    cases hs
    have hs := (recordAll_boundary { Names.fresh true with vars := params } rfl a.scopes _ _).mpr
      ⟨hvalid.mpr hbody, rfl⟩
    exact ⟨_, (h.accepts _ _).mpr ⟨hplace.symm ▸ hV, _, hs, rfl⟩, rfl⟩

end Checks

mutual

theorem checks_expr : (e : Expr) → Checks (checkExpr e) (fun _ => AllValid (exprParts e)) []
  | .ident _ | .number _ | .bool _ | .null | .string _ =>
      Checks.nothing.congr (by simp [exprParts, Valid])
  | .paren e | .field e _ | .unary _ e =>
      (checks_expr e).congr (by simp [exprParts, Valid])
  | .array items => (checks_exprs items).congr (by simp [exprParts, Valid])
  | .object properties => (checks_properties properties).congr (by simp [exprParts, Valid])
  | .function f => (checks_function f).congr (by simp [exprParts, Valid])
  | .index e k => ((checks_expr e).seq (checks_expr k)).congr (by simp [exprParts, Valid])
  | .call e args | .new e args =>
      ((checks_expr e).seq (checks_exprs args)).congr (by simp [exprParts, Valid])
  | .binary _ l r => ((checks_expr l).seq (checks_expr r)).congr (by simp [exprParts, Valid])
  | .update _ e =>
      ((Checks.refuseUnless _ .updateTarget nofun).seq (checks_expr e)).congr (by simp [exprParts, Valid])
  | .assign _ l r =>
      ((Checks.refuseUnless _ .assignTarget nofun).seq ((checks_expr l).seq (checks_expr r))).congr
        (by simp [exprParts, Valid])
  | .cond c t f =>
      ((checks_expr c).seq ((checks_expr t).seq (checks_expr f))).congr
        (by simp [exprParts, Valid])

theorem checks_exprs : (es : List Expr) →
    Checks (checkExprs es) (fun _ => AllValid (exprsParts es)) []
  | [] => Checks.nothing.congr (by simp [exprsParts])
  | e :: es => ((checks_expr e).seq (checks_exprs es)).congr (by simp [exprsParts])

theorem checks_properties : (ps : List (String × Expr)) →
    Checks (checkProperties ps) (fun _ => AllValid (propertyParts ps)) []
  | [] => Checks.nothing.congr (by simp [propertyParts])
  | (_, e) :: ps => ((checks_expr e).seq (checks_properties ps)).congr (by simp [propertyParts])

theorem checks_optional : (e : Option Expr) →
    Checks (checkOptional e) (fun _ => AllValid (maybeExprParts e)) []
  | none => Checks.nothing.congr (by simp [maybeExprParts])
  | some e => (checks_expr e).congr (by simp [maybeExprParts])

theorem checks_function : (f : Function) →
    Checks (checkFunction f) (fun _ => AllValid (functionParts f)) []
  | .mk _ _ body => (checks_stmts body).inFunction.congr (by simp [functionParts])

theorem checks_declarators_var : (ds : List (String × Option Expr)) →
    Checks (checkDeclarators .var ds) (fun _ => AllValid (declaratorParts ds))
      (ds.map fun d => .var d.1)
  | [] => Checks.nothing.congr (by simp [declaratorParts])
  | (x, init) :: ds =>
      ((checks_optional init).seq
        ((Checks.declareVar x).seq (checks_declarators_var ds))).congr
          (by simp [declaratorParts])

theorem checks_declarators_let : (ds : List (String × Option Expr)) →
    Checks (checkDeclarators .letDecl ds) (fun _ => AllValid (declaratorParts ds))
      (ds.map fun d => .lexical d.1)
  | [] => Checks.nothing.congr (by simp [declaratorParts])
  | (x, init) :: ds =>
      ((checks_optional init).seq
        ((Checks.declareLexical x).seq (checks_declarators_let ds))).congr
          (by simp [declaratorParts])

theorem checks_declarators_const : (ds : List (String × Option Expr)) →
    Checks (checkDeclarators .constDecl ds)
      (fun _ => (∀ d ∈ ds, d.2.isSome = true) ∧ AllValid (declaratorParts ds))
      (ds.map fun d => .lexical d.1)
  | [] => Checks.nothing.congr (by simp [declaratorParts])
  | (x, init) :: ds =>
      ((checks_optional init).seq ((Checks.refuseUnless _ .constWithoutValue nofun).seq
        ((Checks.declareLexical x).seq (checks_declarators_const ds)))).congr
          (by simp [declaratorParts]; tauto)

theorem checks_stmt : (t : Stmt) →
    Checks (checkStmt t) (fun p => AllValid (stmtParts p t)) (decls t)
  | .decl .var ds => (checks_declarators_var ds).congr (by simp [stmtParts, Valid])
  | .decl .letDecl ds => (checks_declarators_let ds).congr (by simp [stmtParts, Valid])
  | .decl .constDecl ds => (checks_declarators_const ds).congr (by simp [stmtParts, Valid])
  | .function (.mk none params body) =>
      (checks_function (.mk none params body)).congr (by simp [stmtParts, Valid])
  | .function (.mk (some x) params body) =>
      ((Checks.declareFunction x).seq
        (checks_function (.mk (some x) params body))).congr (by simp [stmtParts, Valid])
  | .ifElse c t none =>
      ((checks_expr c).seq ((checks_stmt t).seq .nothing)).cast (by simp [stmtParts, Valid])
        (List.append_nil _)
  | .ifElse c t (some f) =>
      ((checks_expr c).seq ((checks_stmt t).seq (checks_stmt f))).congr
        (by simp [stmtParts, Valid])
  | .whileLoop c body =>
      ((checks_expr c).seq (checks_stmt body).inLoop).congr (by simp [stmtParts, Valid])
  | .doWhile body c =>
      ((checks_stmt body).inLoop.seq (checks_expr c)).cast (by simp [stmtParts, Valid])
        (List.append_nil _)
  | .forLoop none test update body => by
      have h := (checks_optional test).seq
        ((checks_optional update).seq (checks_stmt body).inLoop)
      have hds : decls body = decls.declsOf [body] := by simp [decls.declsOf]
      have h := (h.cast (fun _ => Iff.rfl) hds).inScope
      exact h.cast (by simp [stmtParts, maybeStmtParts, Valid, Scope.forLoop])
        (by simp [decls, decls.declsOf])
  | .forLoop (some init) test update body => by
      have h := (checks_stmt init).seq ((checks_optional test).seq
        ((checks_optional update).seq (checks_stmt body).inLoop))
      have hds : decls init ++ decls body = decls.declsOf [init, body] := by simp [decls.declsOf]
      have h := (h.cast (fun _ => Iff.rfl) hds).inScope
      exact h.cast (by simp [stmtParts, maybeStmtParts, Valid, Scope.forLoop])
        (by simp [decls, decls.declsOf])
  | .block body => (checks_stmts body).inScope.congr (by simp [stmtParts, Valid])
  | .tryCatch body none none =>
      ((checks_stmts body).inScope.seq .nothing).cast (by simp [stmtParts, Valid])
        (by simp [decls])
  | .tryCatch body (some (_, handler)) none =>
      ((checks_stmts body).inScope.seq ((checks_stmts handler).inScope.seq .nothing)).cast
        (by simp [stmtParts, Valid, and_assoc]) (by simp [decls])
  | .tryCatch body none (some finalizer) =>
      ((checks_stmts body).inScope.seq (checks_stmts finalizer).inScope).cast
        (by simp [stmtParts, Valid, and_assoc]) (by simp [decls])
  | .tryCatch body (some (_, handler)) (some finalizer) =>
      ((checks_stmts body).inScope.seq
        ((checks_stmts handler).inScope.seq (checks_stmts finalizer).inScope)).cast
          (by simp [stmtParts, Valid, and_assoc]) (by simp [decls])
  | .breakLoop =>
      (Checks.refuseUnlessAt _ Place.inLoop (fun _ => rfl) .strayBreak nofun).congr (by simp [stmtParts, Valid])
  | .continueLoop =>
      (Checks.refuseUnlessAt _ Place.inLoop (fun _ => rfl) .strayContinue nofun).congr (by simp [stmtParts, Valid])
  | .returnValue e => by
      have h := (Checks.refuseUnlessAt _ Place.inFunction (fun _ => rfl) .strayReturn nofun).seq
        (checks_optional e)
      exact h.congr (by simp [stmtParts, Valid])
  | .throw e | .expr e => (checks_expr e).congr (by simp [stmtParts, Valid])
  | .empty => Checks.nothing.congr (by simp [stmtParts, Valid])

theorem checks_stmts : (ts : List Stmt) →
    Checks (checkStmts ts) (fun p => AllValid (stmtsParts p ts)) (decls.declsOf ts)
  | [] => Checks.nothing.congr (by simp [stmtsParts])
  | t :: ts => ((checks_stmt t).seq (checks_stmts ts)).congr (by simp [stmtsParts])

end

end SmallScript.Early
