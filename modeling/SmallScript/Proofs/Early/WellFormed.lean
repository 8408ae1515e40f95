import SmallScript.Proofs.Early.Acceptance

namespace SmallScript

def Expr.IsAssignable (e : Expr) : Prop :=
  (∃ x, e.bare = ident x) ∨ (∃ o x, e.bare = field o x) ∨ ∃ o k, e.bare = index o k

theorem Expr.isTarget_iff : (e : Expr) → (e.isTarget = true ↔ e.IsAssignable)
  | .paren e => e.isTarget_iff
  | .ident _ | .field _ _ | .index _ _ => by simp [isTarget, IsAssignable, bare]
  | .number _ | .bool _ | .null | .string _ | .array _ | .object _ | .function _ | .call _ _
  | .new _ _ | .binary _ _ _ | .unary _ _ | .update _ _ | .assign _ _ _ | .cond _ _ _ => by
      simp [isTarget, IsAssignable, bare]

namespace Early

/-- What makes a program acceptable in a session that has declared the given names. -/
structure WellFormed (lexical params : List String) (program : List Stmt) : Prop where
  jumps : ∀ p, .stmt p .breakLoop ∈ programParts lexical params program ∨
    .stmt p .continueLoop ∈ programParts lexical params program → p.inLoop = true
  returns : ∀ p e, .stmt p (.returnValue e) ∈ programParts lexical params program →
    p.inFunction = true
  assigned : ∀ op l r, .expr (.assign op l r) ∈ programParts lexical params program →
    l.IsAssignable
  updated : ∀ op e, .expr (.update op e) ∈ programParts lexical params program → e.IsAssignable
  constants : ∀ p ds, .stmt p (.decl .constDecl ds) ∈ programParts lexical params program →
    ∀ d ∈ ds, d.2.isSome = true
  distinct : ∀ s, .scope s ∈ programParts lexical params program → s.Distinct
  apart : ∀ s, .scope s ∈ programParts lexical params program → s.Apart

theorem wellFormed_iff_allValid (lexical params : List String) (program : List Stmt) :
    WellFormed lexical params program ↔ AllValid (programParts lexical params program) := by
  constructor
  · intro h x hx
    unfold Valid
    split
    · exact (Expr.isTarget_iff _).mpr (h.updated _ _ hx)
    · exact (Expr.isTarget_iff _).mpr (h.assigned _ _ _ hx)
    · exact h.jumps _ (.inl hx)
    · exact h.jumps _ (.inr hx)
    · exact h.returns _ _ hx
    · exact h.constants _ _ hx
    · exact ⟨h.distinct _ hx, h.apart _ hx⟩
    · trivial
  · intro h
    exact
      { jumps := fun p hp => hp.elim (fun hx => h _ hx) (fun hx => h _ hx)
        returns := fun p e hx => h _ hx
        assigned := fun op l r hx => (Expr.isTarget_iff _).mp (h _ hx)
        updated := fun op e hx => (Expr.isTarget_iff _).mp (h _ hx)
        constants := fun p ds hx => h _ hx
        distinct := fun s hx => (h _ hx).1
        apart := fun s hx => (h _ hx).2 }

theorem analyze_accepts (program : List Stmt) (s : Names) (hs : s.isBoundary = true)
    (a b : Analyzer) (ha : a.scopes = [s]) :
    Accepts (analyze program) a b ↔
      (AllValid (stmtsParts .top program) ∧ s.AdmitsAll (decls.declsOf program)) ∧
        ⟨0, 0, [s.addAll (decls.declsOf program)]⟩ = b := by
  have hprogram : Accepts (analyze program) a b ↔ Accepts (checkStmts program) ⟨0, 0, [s]⟩ b := by
    simp only [Accepts, analyze, ha, List.getLast?_singleton, Option.toList_some]
    cases checkStmts program ⟨0, 0, [s]⟩ <;> simp
  have hplace : Analyzer.place ⟨0, 0, [s]⟩ = .top := by simp [Analyzer.place, Place.top]
  rw [hprogram, (checks_stmts program).accepts, hplace]
  simp only [recordAll_boundary s hs]
  constructor
  · rintro ⟨hv, _, ⟨hadmits, rfl⟩, rfl⟩
    exact ⟨⟨hv, hadmits⟩, rfl⟩
  · rintro ⟨⟨hv, hadmits⟩, rfl⟩
    exact ⟨hv, _, ⟨hadmits, rfl⟩, rfl⟩

theorem analyze_refuses (program : List Stmt) (s : Names) (a b : Analyzer) (e : EarlyError)
    (ha : a.scopes = [s]) (h : analyze program a = .error e b) : b.scopes = [s] := by
  simp only [analyze, ha, List.getLast?_singleton, Option.toList_some] at h
  cases hc : checkStmts program ⟨0, 0, [s]⟩ with
  | ok u c => simp [hc] at h
  | error e' c =>
      simp only [hc, EStateM.Result.error.injEq] at h
      rw [← h.2]
      rfl

/-- An analyzer that starts with a scope has one wherever a name is declared. -/
theorem housed_analyze (program : List Stmt) : Housed (analyze program) := by
  intro a b ha h
  have hstart : a.scopes.getLast?.toList ≠ [] := by simp [List.getLast?_eq_none_iff, ha]
  simp only [analyze] at h
  split at h
  · cases h
  · cases h
    exact (checks_stmts program).housed ⟨0, 0, a.scopes.getLast?.toList⟩ _ hstart ‹_›

/-- An analyzer that has seen programs one after the other, whether it accepted them or not. -/
def analyzeAll : Analyzer → List (List Stmt) → Analyzer
  | a, [] => a
  | a, p :: ps =>
    match analyze p a with
    | .ok () b => analyzeAll b ps
    | .error _ b => analyzeAll b ps

def accepted : Analyzer → List (List Stmt) → List (List Stmt)
  | _, [] => []
  | a, p :: ps =>
    match analyze p a with
    | .ok () b => p :: accepted b ps
    | .error _ b => accepted b ps

/-- The `let` and `const` names of a session in which these programs were accepted. -/
def sessionLexical (programs : List (List Stmt)) : List String :=
  (Scope.function [] programs.flatten).lexicalNames

def sessionVars (programs : List (List Stmt)) : List String :=
  (Scope.function [] programs.flatten).varNames
    ++ (Scope.function [] programs.flatten).functionNames

/-- The outermost scope holds the declarations of the accepted programs, and they fit together. -/
theorem analyzeAll_scopes (earlier : List (List Stmt)) (a : Analyzer) (ds : List Decl)
    (ha : a.scopes = [(Names.fresh true).addAll ds]) (hds : (Names.fresh true).AdmitsAll ds) :
    (analyzeAll a earlier).scopes =
        [(Names.fresh true).addAll (ds ++ decls.declsOf (accepted a earlier).flatten)] ∧
      (Names.fresh true).AdmitsAll (ds ++ decls.declsOf (accepted a earlier).flatten) := by
  induction earlier generalizing a ds with
  | nil => simpa [analyzeAll, accepted, decls.declsOf] using ⟨ha, hds⟩
  | cons p ps ih =>
      cases hp : analyze p a with
      | ok u b =>
          obtain ⟨⟨-, hadmits⟩, rfl⟩ :=
            (analyze_accepts p _ (Names.addAll_isBoundary _ _) a b ha).mp hp
          have h := ih ⟨0, 0, [_]⟩ (ds ++ decls.declsOf p) (by rw [Names.addAll_append])
            ((Names.admitsAll_append _ _ _).mpr ⟨hds, hadmits⟩)
          simpa only [analyzeAll, accepted, hp, List.flatten_cons, declsOf_append,
            List.append_assoc] using h
      | error e b =>
          have h := ih b ds (analyze_refuses p _ a b e ha hp) hds
          simpa only [analyzeAll, accepted, hp] using h

theorem mem_sessionLexical (programs : List (List Stmt)) (x : String) :
    x ∈ sessionLexical programs ↔ .lexical x ∈ decls.declsOf programs.flatten := by
  rw [sessionLexical, Scope.lexicalNames, ← mem_filterMap_lexical]
  rfl

theorem mem_sessionVars (programs : List (List Stmt)) (x : String) :
    x ∈ sessionVars programs ↔
      .var x ∈ decls.declsOf programs.flatten ∨ .function x ∈ decls.declsOf programs.flatten := by
  rw [sessionVars, List.mem_append, mem_varNames_iff, Scope.functionNames, mem_filterMap_function]
  rfl

theorem session_proper (programs : List (List Stmt))
    (h : (Names.fresh true).AdmitsAll (decls.declsOf programs.flatten)) (program : List Stmt) :
    (Scope.mk true (sessionLexical programs) (sessionVars programs) program).Proper := by
  rw [Names.admitsAll_iff _ fun _ => rfl, pairwise_compatible_iff] at h
  obtain ⟨-, hnodup, hapart, -⟩ := h
  refine ⟨by simpa [sessionLexical, Scope.lexicalNames, Scope.function] using hnodup, ?_, nofun⟩
  intro x hl hv
  have hx := hapart x ((mem_sessionLexical _ _).mp hl)
  exact ((mem_sessionVars _ _).mp hv).elim hx.2 hx.1

/-- After any programs, accepted or not, the analyzer accepts exactly the well formed ones, the
names declared so far counting as declarations of the outermost scope. -/
theorem analyze_accepts_iff_wellFormed (earlier : List (List Stmt)) (program : List Stmt) :
    (∃ b, analyze program (analyzeAll .new earlier) = .ok () b) ↔
      WellFormed (sessionLexical (accepted .new earlier)) (sessionVars (accepted .new earlier))
        program := by
  obtain ⟨hscopes, hfit⟩ := analyzeAll_scopes earlier .new [] rfl trivial
  rw [List.nil_append] at hscopes hfit
  generalize accepted .new earlier = programs at *
  have hboundary := Names.addAll_isBoundary (Names.fresh true) (decls.declsOf programs.flatten)
  have hproper := session_proper programs hfit program
  have hstart : ((Names.fresh true).addAll (decls.declsOf programs.flatten)).AdmitsAll
      (decls.declsOf program) ↔
        (Scope.mk true (sessionLexical programs) (sessionVars programs) program).start.AdmitsAll
          (decls.declsOf program) := by
    refine Names.admitsAll_congr ?_ ?_ ?_ ?_ ?_ _
    · exact hboundary
    · intro _
      exact Names.functions_addAll _ rfl _
    · intro x
      rw [Names.mem_lexical_addAll]
      simp [Names.fresh, Scope.start, mem_sessionLexical]
    · intro x
      rw [Names.mem_vars_addAll _ rfl]
      simp [Names.fresh, Scope.start, mem_sessionVars]
    · exact Names.functions_addAll _ rfl _
  simp only [← Accepts.eq_1, analyze_accepts program _ hboundary _ _ hscopes]
  rw [wellFormed_iff_allValid, programParts, allValid_cons, hstart, admitsAll_start_iff _ hproper]
  simp [Valid, and_comm]

end Early

end SmallScript
