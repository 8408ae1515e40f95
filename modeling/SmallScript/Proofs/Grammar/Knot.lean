import SmallScript.Proofs.Grammar.Rules
import SmallScript.Proofs.Repetition

namespace SmallScript.Scan.Follows

variable {α : Type} {k n : Nat} {p q : Scan α}

theorem eq (h : Follows k n Eq Eq p q) {s : List Char} (hs : s.length < n) : p s = q s := by
  rcases h s s hs rfl with ⟨hp, hq⟩ | ⟨a, r, r', hp, hq, hkept⟩
  · rw [hp, hq]
  · rw [hp, hq, hkept.rest]

end SmallScript.Scan.Follows

namespace SmallScript.Grammar

open Lexical Scan

def Same (_ : Nat) (s t : List Char) : Prop := s = t

namespace Same

theorem follows {α : Type} {n d : Nat} {p : Scan α}
    (h : ∀ s a r, p s = some (a, r) → r.length ≤ s.length) :
    Follows 0 n (Same d) (Same d) p p := by
  rintro s _ - rfl
  cases hp : p s with
  | none => exact .inl ⟨rfl, rfl⟩
  | some x => exact .inr ⟨x.1, x.2, x.2, rfl, rfl, rfl, h s _ _ hp, h s _ _ hp⟩

theorem inlineGap (n d : Nat) : Follows 0 n (Same d) (Same d) inlineGap inlineGap :=
  follows fun s a r h => by cases h; exact (skip_suffix s).length_le

theorem sameLine (n d : Nat) : Follows 0 n (Same d) (Same d) sameLine sameLine := by
  refine (inlineGap n d).bind fun _ => follows fun s a r h => ?_
  cases s with
  | nil => cases h; exact Nat.le_refl _
  | cons c s =>
      rw [notNext, Option.ite_none_left_eq_some] at h
      cases h.2
      exact Nat.le_refl _

theorem blockComment (n d : Nat) : Follows 0 n (Same d) (Same d) blockComment blockComment := by
  refine follows fun s a r h => ?_
  obtain ⟨t, rfl, ht⟩ := eq_of_blockComment h
  exact Nat.le_succ_of_le (Nat.le_succ_of_le (blockEnd_suffix ht).length_le)

theorem firm (d : Nat) : Firm (Same d) := fun _ h => h.symm

theorem tie : Tie Same where
  fronts := by
    rintro d s _ rfl
    cases s with
    | nil => exact .nil
    | cons c r =>
        exact .cons c ⟨fun _ => rfl, fun _ => rfl, fun _ _ _ => rfl, fun _ => .refl c (fun _ => rfl) r⟩
  firm d := firm (d + 1)
  gap := by rintro d s _ rfl; rfl
  turn := by rintro d c e r _ - ⟨⟩; rfl
  leave h _ := h
  gapLeft := by rintro d s _ rfl; exact ⟨rfl, rfl⟩
  inlineGap := by rintro d s _ rfl; rfl
  slash h := .inl (List.cons.inj h.tied).2
  lineBreak n d := by
    refine (inlineGap n d).bind fun _ => .orElse (follows fun s a r h => ?_) (blockComment n d)
    obtain ⟨c, rfl, -⟩ := eq_of_atLineEnd h
    exact Nat.le_succ _

end Same

/-- However much deeper one of them is unfolded. -/
theorem rules_follow {n m : Nat} (h : n ≤ m) : (rules n).Follow Same n (rules m) := by
  induction n generalizing m with
  | zero =>
      exact ⟨fun _ _ _ => nofun, fun _ _ _ => nofun, fun _ _ _ _ => nofun, fun _ _ _ _ => nofun⟩
  | succ n ih =>
      cases m with
      | zero => cases h
      | succ m =>
          have hrules := ih (Nat.le_of_succ_le_succ h)
          exact Same.tie.unfold hrules fun d => Same.tie.jumpAtFront hrules (Same.sameLine n d)

/-- The rules, unfolded for each text as deep as it is long. -/
def grammar : Rules where
  expr s := (rulesFor s).expr s
  newExpr s := (rulesFor s).newExpr s
  stmt s := (rulesFor s).stmt s
  stmts s := (rulesFor s).stmts s

theorem rules_follow_grammar (n : Nat) : (rules n).Follow Same n grammar := by
  have hdeep {α : Type} {k d : Nat} {p : Nat → Scan α}
      (h : ∀ {m n}, m ≤ n → Follows k m (Same d) (Same d) (p m) (p n)) :
      Follows k n (Same d) (Same d) (p n) fun s => p (s.length + 1) s := by
    rintro s _ hs rfl
    rcases h hs s s (Nat.lt_succ_self _) rfl with ⟨hp, hq⟩ | ⟨a, r, r', hp, hq, hkept⟩
    · exact .inl ⟨hq, hp⟩
    · exact .inr ⟨a, r', r, hq, hp, hkept.rest.symm, hkept.right, hkept.left⟩
  exact {
    expr := fun d => hdeep (p := fun n => (rules n).expr) fun h => (rules_follow h).expr d
    newExpr := fun d => hdeep (p := fun n => (rules n).newExpr) fun h => (rules_follow h).newExpr d
    stmt := fun d hd => hdeep (p := fun n => (rules n).stmt) fun h => (rules_follow h).stmt d hd
    stmts := fun d hd => hdeep (p := fun n => (rules n).stmts) fun h => (rules_follow h).stmts d hd }

theorem grammar_unfold : grammar.unfold = grammar := by
  have hunfold (n : Nat) : (rules (n + 1)).Follow Same (n + 1) grammar.unfold :=
    Same.tie.unfold (rules_follow_grammar n) fun d =>
      Same.tie.jumpAtFront (rules_follow_grammar n) (Same.sameLine n d)
  have heq {α : Type} {k : Nat} {p : Nat → Scan α} {q : Scan α}
      (h : ∀ n, Follows k (n + 1) (Same 0) (Same 0) (p (n + 1)) q) :
      q = fun s => p (s.length + 1) s := by
    funext s
    rcases h s.length s s (Nat.lt_succ_self _) rfl with ⟨hp, hq⟩ | ⟨a, r, r', hp, hq, hkept⟩
    · rw [hp, hq]
    · rw [hp, hq, hkept.rest]
  rw [← show (⟨grammar.unfold.expr, grammar.unfold.newExpr, grammar.unfold.stmt,
    grammar.unfold.stmts⟩ : Rules) = grammar.unfold from rfl,
    heq (p := fun n => (rules n).expr) fun n => (hunfold n).expr 0,
    heq (p := fun n => (rules n).newExpr) fun n => (hunfold n).newExpr 0,
    heq (p := fun n => (rules n).stmt) fun n => (hunfold n).stmt 0 (Same.firm 0),
    heq (p := fun n => (rules n).stmts) fun n => (hunfold n).stmts 0 (Same.firm 0)]
  rfl

@[simp]
theorem grammar_expr : grammar.expr = expr grammar := congrArg Rules.expr grammar_unfold.symm

@[simp]
theorem grammar_newExpr : grammar.newExpr = newExpr grammar :=
  congrArg Rules.newExpr grammar_unfold.symm

@[simp]
theorem grammar_stmt : grammar.stmt = stmt grammar := congrArg Rules.stmt grammar_unfold.symm

@[simp]
theorem grammar_stmts : grammar.stmts = many (stmt grammar) :=
  congrArg Rules.stmts grammar_unfold.symm

def elseTail : Scan Stmt := do
  gap
  keyword "else"
  grammar.stmt

/-- The grammar goes along with a tie if jumps do. -/
theorem Tie.grammar {T L : Nat → List Char → List Char → Prop} (H : Tie T L)
    (hjump : ∀ n d, grammar.Follow T n grammar L →
      Follows 1 (n + 1) (Both (Settled T d) (L d)) (T d) (Grammar.jump grammar)
        (Grammar.jump grammar)) (n : Nat) :
    grammar.Follow T n grammar L := by
  induction n with
  | zero =>
      exact ⟨fun _ _ _ => nofun, fun _ _ _ => nofun, fun _ _ _ _ => nofun, fun _ _ _ _ => nofun⟩
  | succ n ih =>
      rw [← grammar_unfold]
      exact H.unfold ih fun d => hjump n d ih

theorem grammar_follow (n : Nat) : grammar.Follow Same n grammar :=
  Same.tie.grammar (fun n d h => Same.tie.jumpAtFront h (Same.sameLine n d)) n

theorem takes_of_follows {α : Type} {U : List Char → List Char → Prop} {p : Scan α}
    (h : ∀ n, Follows 1 n (Same 0) U p p) : Takes p := by
  intro s a r hs
  rcases h (s.length + 1) s s (Nat.lt_succ_self _) rfl with ⟨hfail, -⟩ | ⟨_, _, _, hr, -, -, hleft, -⟩
  · cases hfail.symm.trans hs
  · cases hr.symm.trans hs
    exact hleft

theorem takes_callSuffix : Takes (do gap; callSuffix grammar) :=
  takes_of_follows fun n => Same.tie.behindGap (d := 0) n
    ((Same.tie.callSuffix (grammar_follow n)).mono (Nat.le_succ n))

theorem takes_memberSuffix : Takes (do gap; memberSuffix grammar) :=
  takes_of_follows fun n => Same.tie.behindGap (d := 0) n
    ((Same.tie.memberSuffix (grammar_follow n)).mono (Nat.le_succ n))

theorem takes_leading : Takes (do let op ← leading; gap; return op : Scan Leading) :=
  takes_of_follows fun n => ((Same.tie.symbols (d := 0)).leading (n := n)).andThen fun op =>
    (Same.tie.scanGap n).bind fun _ => .pure op

theorem stmt_takes : Takes (stmt grammar) := by
  refine takes_of_follows (U := Same 0) fun n => ?_
  rw [← grammar_stmt]
  exact (grammar_follow n).stmt 0 (Same.firm 0)

theorem statements_eq (s : List Char) : statements s = repeated (stmt grammar) s := by
  have h := ((rules_follow_grammar (s.length + 2)).stmts 0 (Same.firm 0)).eq (s := s) (by omega)
  rw [grammar_stmts] at h
  exact Option.some.inj h

/-- A text is a program if statements reach to the gap at its end. -/
theorem ofChars?_eq_ok {s : List Char} {t : Program} :
    Program.ofChars? s = .ok t ↔ ∃ r, grammar.stmts s = some (t, r) ∧ skipGap r = [] := by
  rw [Program.ofChars?, statements_eq, grammar_stmts, many]
  cases repeated (stmt grammar) s with
  | mk program rest =>
      simp only [Option.some.injEq, Prod.mk.injEq]
      constructor
      · intro h
        cases hgap : skipGap rest with
        | nil =>
            rw [hgap] at h
            cases h
            exact ⟨rest, ⟨rfl, rfl⟩, hgap⟩
        | cons c r =>
            rw [hgap] at h
            cases h
      · rintro ⟨r, ⟨rfl, rfl⟩, hr⟩
        rw [hr]
        rfl

end SmallScript.Grammar
