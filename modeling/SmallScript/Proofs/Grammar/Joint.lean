import SmallScript.Proofs.Grammar.Backward
import SmallScript.Proofs.Lexical.Joint

namespace SmallScript.Grammar

open Lexical Scan

structure Halt (k : List Char) : Prop where
  ne : k ≠ []
  gap : skipGap k = k
  stmt : stmt grammar k = none

/-- A text that ends with `k` behind a joint, with `d` open brackets in front of it. -/
def Joined (k : List Char) (d : Nat) (s : List Char) : Prop := ∃ t, s = t ++ k ∧ Joins k d t

/-- The same, where no token at the end of what stands in front of `k` goes on with it. -/
def Before (k : List Char) (d : Nat) (s : List Char) : Prop :=
  ∃ t, (t ≠ [] ∨ k.head? = some '\x7d') ∧ s = t ++ k ∧ Joins k d t

variable {α β : Type} {k s t r : List Char} {c : Char} {d e n m : Nat}

theorem Halt.skip_eq (hk : Halt k) (across : Bool) : Lexical.skip across k = k := by
  have hgap : Lexical.skip true k = k := hk.gap
  cases across with
  | true => exact hgap
  | false =>
      have hsuffix : Lexical.skip true (Lexical.skip false k) <:+ Lexical.skip false k :=
        skip_suffix _
      rw [skip_inline_skip, hgap] at hsuffix
      exact (hsuffix.eq_of_length_le (skip_suffix k).length_le).symm

theorem Halt.not_isGapBlank (hk : Halt k) (hs : k = c :: s) : isGapBlank true c = false := by
  rw [← Bool.not_eq_true]
  intro hc
  have hskip := hk.skip_eq true
  rw [hs, skip_blank hc] at hskip
  have hlength : (Lexical.skip true s).length ≤ s.length := (skip_suffix s).length_le
  rw [hskip, List.length_cons] at hlength
  omega

theorem Before.joined (h : Before k d s) : Joined k d s := by
  obtain ⟨t, -, hs, ht⟩ := h
  exact ⟨t, hs, ht⟩

namespace Joined

theorem opening (ho : isOpening c = true) (h : Joined k (d + 1) r) : Before k d (c :: r) := by
  obtain ⟨t, rfl, ht⟩ := h
  exact ⟨c :: t, .inl nofun, rfl, .opening ho ht⟩

theorem closing (hclose : isClosing c = true) (h : Joined k d r) : Before k (d + 1) (c :: r) := by
  obtain ⟨t, rfl, ht⟩ := h
  exact ⟨c :: t, .inl nofun, rfl, .closing hclose ht⟩

theorem quote {w : List Char} (hq : IsQuote c) (hw : Closed c w) (h : Joined k d r) :
    Before k d (c :: (w ++ r)) := by
  obtain ⟨t, rfl, ht⟩ := h
  exact ⟨c :: (w ++ t), .inl nofun, by rw [List.cons_append, List.append_assoc], .quote hq hw rfl ht⟩

theorem blank {across : Bool} (hc : isGapBlank across c = true) (h : Joined k d r) :
    Before k d (c :: r) := by
  obtain ⟨t, rfl, ht⟩ := h
  have hblank : isGapBlank true c = true := by
    cases across with
    | true => exact hc
    | false => exact isGapBlank_of_inline hc
  obtain ⟨-, ho, hclose⟩ := not_bracket_of_isGapBlank hc
  exact ⟨c :: t, .inl nofun, rfl, .plain (.of_isGapBlank hc _) ho hclose
    (isQuote_of_isGapBlank hc) (fun _ => .inr (.inl hblank)) ht⟩

theorem semicolon (h : Joined k d r) : Before k d (';' :: r) := by
  obtain ⟨t, rfl, ht⟩ := h
  exact ⟨';' :: t, .inl nofun, rfl, .plain (fun _ => nofun) rfl rfl rfl (fun _ => .inl rfl) ht⟩

theorem block (hr : blockEnd true s = some r) (h : Joined k d r) :
    Before k d ('/' :: '*' :: s) := by
  obtain ⟨t, rfl, ht⟩ := h
  obtain ⟨u, rfl, hu⟩ := blockEnd_of_append hr
  exact ⟨'/' :: '*' :: u, .inl nofun, rfl, .block hu ht⟩

theorem line (hk : Halt k) (h : Joined k d (s.dropWhile fun c => !isLineEnd c)) :
    Before k d ('/' :: '/' :: s) := by
  obtain ⟨t, hs, ht⟩ := h
  have hline {c : Char} {u : List Char} (hu : s.dropWhile (fun c => !isLineEnd c) = c :: u) :
      isLineEnd c = true := by
    have hhead := List.head?_dropWhile_not (fun c => !isLineEnd c) s
    rw [hu] at hhead
    simpa using hhead
  cases t with
  | nil =>
      obtain ⟨c, u, hcons⟩ := List.exists_cons_of_ne_nil hk.ne
      have hc := hk.not_isGapBlank hcons
      rw [isGapBlank_of_isLineEnd (hline (hs.trans hcons))] at hc
      cases hc
  | cons c u =>
      have hbody (c : Char) (hc : c ∈ s.takeWhile fun c => !isLineEnd c) : isLineEnd c = false := by
        simpa using List.all_eq_true.mp (List.all_takeWhile (p := fun c => !isLineEnd c) (l := s)) c hc
      have hdrop := dropWhile_line hbody (hline hs) u
      refine ⟨'/' :: '/' :: ((s.takeWhile fun c => !isLineEnd c) ++ c :: u), .inl nofun, ?_, ?_⟩
      · rw [List.cons_append, List.cons_append, List.append_assoc, ← hs,
          List.takeWhile_append_dropWhile]
      · exact .line (by rw [hdrop]; exact nofun) (by rwa [hdrop])

theorem of_skip (hk : Halt k) (across : Bool) (h : Joined k d (Lexical.skip across s)) :
    Lexical.skip across s = s ∨ Before k d s := by
  induction s using gap_induction across with
  | nil => exact .inl rfl
  | blank c r hc ih =>
      rw [skip_blank hc] at h
      rcases ih h with heq | hr
      · exact .inr ((heq ▸ h).blank hc)
      · exact .inr (hr.joined.blank hc)
  | line r ih =>
      rw [skip_line] at h
      rcases ih h with heq | hr
      · exact .inr ((heq ▸ h).line hk)
      · exact .inr (hr.joined.line hk)
  | block r r' hr ih =>
      rw [skip_block, hr] at h
      rcases ih h with heq | hrest
      · exact .inr (block (blockEnd_across hr) (heq ▸ h))
      · exact .inr (block (blockEnd_across hr) hrest.joined)
  | stop c r hc hline hblock => exact .inl (skip_stop hc hline hblock)

theorem skip (hk : Halt k) (across : Bool) (h : Joined k d (Lexical.skip across s)) :
    Joined k d s := by
  rcases h.of_skip hk across with heq | hs
  · exact heq ▸ h
  · exact hs.joined

end Joined

namespace Before

theorem skip (hk : Halt k) (across : Bool) (h : Before k d (Lexical.skip across s)) :
    Before k d s := by
  rcases h.joined.of_skip hk across with heq | hs
  · exact heq ▸ h
  · exact hs

theorem plain (hc : NoComment c r) (ho : isOpening c = false) (hclose : isClosing c = false)
    (hq : isQuote c = false) (h : Before k d r) : Before k d (c :: r) := by
  obtain ⟨t, ht, rfl, hjoins⟩ := h
  exact ⟨c :: t, .inl nofun, rfl,
    .plain hc ho hclose hq (fun hnil => .inr (.inr (ht.resolve_left fun h => h hnil))) hjoins⟩

end Before

/-- Joints pass backward over tokens and gaps. -/
theorem before_backward (hk : Halt k) : Backward (Before k) where
  plain hc _ ho hclose hq h := h.plain hc ho hclose hq
  opening ho h := h.joined.opening ho
  closing hclose h := h.joined.closing hclose
  content {d q r} hq h := by
    rcases unclosed_or_closed q r with hr | ⟨w, u, hw, rfl⟩
    · exact hr.content
    · exact hw.content ⟨rfl, fun hu => h (hu.joined.quote hq hw)⟩
  block hr h := h.joined.block hr
  skip across h := h.skip hk across

/-- Where `p` leaves a text with a joint, it was read from such a text. -/
def Leads (k : List Char) (n d : Nat) (p : Scan α) : Prop :=
  ∀ s a r, s.length < n → p s = some (a, r) → Joined k 0 r → Before k d s

namespace Leads

variable {p q : Scan α} {j : Nat}

theorem seq {f : α → Scan β} (h : Follows j m (Lacks (Before k) d) (Lacks (Before k) e) p p)
    (hm : m ≤ n + j) (hf : ∀ a, Leads k n e (f a)) : Leads k m d (p >>= f) := by
  intro s b r hs hr hjoined
  obtain ⟨a, u, hu, hr⟩ := bind_eq_some hr
  by_contra hbefore
  obtain ⟨u', hu', hkept⟩ := h.succeeds hs ⟨rfl, hbefore⟩ hu
  exact hkept.rest.lacks (hf a u b r (by have := hkept.left; omega) hr hjoined)

theorem bind {f : α → Scan β} (h : Follows j n (Lacks (Before k) d) (Lacks (Before k) e) p p)
    (hf : ∀ a, Leads k n e (f a)) : Leads k n d (p >>= f) :=
  seq h.weaken (Nat.le_refl n) hf

theorem bindBehind {f : α → Scan β}
    (h : Follows 1 (n + 1) (Lacks (Before k) d) (Lacks (Before k) e) p p)
    (hf : ∀ a, Leads k n e (f a)) : Leads k (n + 1) d (p >>= f) :=
  seq h (Nat.le_refl (n + 1)) hf

theorem andThen {f : α → Scan β} (hp : Leads k n d p)
    (hf : ∀ a s b r, f a s = some (b, r) → Joined k 0 r → Joined k 0 s) :
    Leads k n d (p >>= f) := by
  intro s b r hs hr hjoined
  obtain ⟨a, u, hu, hr⟩ := bind_eq_some hr
  exact hp s a u hs hu (hf a u b r hr hjoined)

theorem map {f : α → β} (h : Leads k n d p) : Leads k n d (do let a ← p; return f a) :=
  h.andThen fun _ _ _ _ hr hjoined => by cases hr; exact hjoined

theorem orElse (hp : Leads k n d p) (hq : Leads k n d q) : Leads k n d (p <|> q) := by
  intro s a r hs hr hjoined
  rw [orElse_apply] at hr
  cases hps : p s with
  | none =>
      rw [hps, Option.none_or] at hr
      exact hq s a r hs hr hjoined
  | some x =>
      rw [hps, Option.some_or] at hr
      cases hr
      exact hp s a r hs hps hjoined

theorem joined_of_maybe (hp : ∀ n, Leads k n 0 p) {x : Option α} (h : Scan.maybe p s = some (x, r))
    (hr : Joined k 0 r) : Joined k 0 s := by
  rw [maybe_apply] at h
  cases hps : p s with
  | none =>
      rw [hps] at h
      cases h
      exact hr
  | some y =>
      rw [hps] at h
      cases h
      exact (hp (s.length + 1) s _ _ (Nat.lt_succ_self _) hps hr).joined

end Leads

section

variable (hk : Halt k)

include hk

theorem mark_leads (hclose : isClosing c = true) : Leads k n 1 (mark c) := by
  refine .bind ((before_backward hk).tie.overGap n) fun _ => ?_
  intro s a r _ hr hjoined
  exact eq_cons_of_char hr ▸ hjoined.closing hclose

omit hk in
theorem char_leads : Leads k n 0 (char ';') := by
  intro s a r _ hr hjoined
  exact eq_cons_of_char hr ▸ hjoined.semicolon

theorem semicolon_leads : Leads k n 0 (do inlineGap; char ';') :=
  .bind ((before_backward hk).tie.scanInlineGap n) fun _ => char_leads

theorem lineBreak_leads : Leads k n 0 (do inlineGap; atLineEnd <|> blockComment) := by
  refine .bind ((before_backward hk).tie.scanInlineGap n) fun _ => .orElse ?_ ?_
  · intro s a r _ hr hjoined
    obtain ⟨c, rfl, hline⟩ := eq_of_atLineEnd hr
    exact hjoined.blank (isGapBlank_of_isLineEnd hline)
  · intro s a r _ hr hjoined
    obtain ⟨u, rfl, hu⟩ := eq_of_blockComment hr
    exact hjoined.block hu

theorem stmtEnd_leads : Leads k n 0 stmtEnd := by
  have hgap := (before_backward hk).tie.overGap (d := 0) n
  refine .orElse (semicolon_leads hk) <| .orElse (lineBreak_leads hk) <|
    .orElse (.bind hgap fun _ => ?_) (.bind hgap fun _ => ?_)
  · rintro s a r - hr ⟨t, rfl, ht⟩
    cases s with
    | nil => cases hr
    | cons c s =>
        rw [beforeBrace, Option.ite_none_right_eq_some] at hr
        obtain ⟨rfl, heq⟩ := hr
        cases t with
        | nil =>
            cases heq
            exact ⟨[], .inr rfl, rfl, ht⟩
        | cons c' t =>
            cases heq
            exact ⟨'\x7d' :: t, .inl (List.cons_ne_nil _ t), rfl, ht⟩
  · rintro s a r - hr ⟨t, ht, -⟩
    cases s with
    | nil =>
        cases hr
        exact (hk.ne (List.append_eq_nil_iff.mp ht.symm).2).elim
    | cons => cases hr

theorem block_leads : Leads k n 0 (block grammar) := by
  have H := (before_backward hk).tie
  refine .bind (H.opening n rfl) fun _ => ?_
  refine .bind (((before_backward hk).follow n).stmts 1 (Backward.firm 1)) fun body => ?_
  exact .map (mark_leads hk rfl)

theorem condition_leads : Leads k n 0 (condition grammar) := by
  have H := (before_backward hk).tie
  refine .bind (H.markOpening n rfl).tied fun _ => ?_
  exact .bind (((before_backward hk).follow n).expr 1) fun _ => .map (mark_leads hk rfl)

theorem functionDef_leads : Leads k n 0 (functionDef grammar) := by
  have H := (before_backward hk).tie
  refine .bind (H.keyword n rfl) fun _ => ?_
  refine .bind (H.behindGap n (H.identifier n)).maybe fun _ => ?_
  refine .bind (H.markOpening n rfl).tied fun _ => ?_
  refine .bind ((H.behindGap n (H.identifier n)).sepBy H.comma) fun _ => ?_
  refine .bind (H.markClosing n rfl).tied fun _ => .bind (H.markOpening n rfl).tied fun _ => ?_
  refine .bind (((before_backward hk).follow n).stmts 1 (Backward.firm 1)) fun _ => ?_
  exact .map (mark_leads hk rfl)

theorem functionDecl_leads : Leads k n 0 (functionDecl grammar) := by
  refine (functionDef_leads hk).andThen fun f _ _ _ hr hjoined => ?_
  cases hf : f.name with
  | none =>
      rw [hf] at hr
      cases hr
  | some x =>
      rw [hf] at hr
      cases hr
      exact hjoined

theorem catchClause_leads : Leads k n 0 (catchClause grammar) := by
  have H := (before_backward hk).tie
  refine .bind (H.overGap n) fun _ => .bind (H.keyword n rfl) fun _ => ?_
  refine .bind (H.markOpening n rfl).tied fun _ => .bind (H.overGap n) fun _ => ?_
  refine .bind (H.identifier n) fun _ => ?_
  refine .bind (H.markClosing n rfl).tied fun _ => .bind (H.overGap n) fun _ => ?_
  exact .map (block_leads hk)

theorem finallyClause_leads : Leads k n 0 (finallyClause grammar) := by
  have H := (before_backward hk).tie
  refine .bind (H.overGap n) fun _ => .bind (H.keyword n rfl) fun _ => ?_
  exact .bind (H.overGap n) fun _ => block_leads hk

theorem tryStmt_leads : Leads k n 0 (tryStmt grammar) := by
  have H := (before_backward hk).tie
  refine .bind (H.keyword n rfl) fun _ => .bind (H.overGap n) fun _ => ?_
  refine (block_leads hk).andThen fun body _ _ _ hr hjoined => ?_
  obtain ⟨handler, u, hu, hr⟩ := bind_eq_some hr
  obtain ⟨finalizer, v, hv, hr⟩ := bind_eq_some hr
  refine Leads.joined_of_maybe (fun n => catchClause_leads hk) hu ?_
  refine Leads.joined_of_maybe (fun n => finallyClause_leads hk) hv ?_
  cases handler <;> cases finalizer <;> cases hr <;> exact hjoined

theorem terminated_leads : Leads k n 0 (terminated grammar) := by
  have H := (before_backward hk).tie
  have hfollow := (before_backward hk).follow n
  have hhead : Follows 1 (n + 1) (Lacks (Before k) 0) (Lacks (Before k) 0)
      (declaration grammar <|> jump grammar <|> Stmt.expr <$> expr grammar)
      (declaration grammar <|> jump grammar <|> Stmt.expr <$> expr grammar) :=
    (H.declaration hfollow).orElse <|
      ((before_backward hk).jump n 0 hfollow).orElse ((H.expr hfollow).map _)
  exact .bind (hhead.mono (Nat.le_succ n)) fun _ => .map (stmtEnd_leads hk)

theorem doStmt_leads : Leads k n 0 (doStmt grammar) := by
  have H := (before_backward hk).tie
  refine .bind (H.keyword n rfl) fun _ => ?_
  refine .bind (((before_backward hk).follow n).stmt 0 (Backward.firm 0)) fun _ => ?_
  refine .bind (H.overGap n) fun _ => .bind (H.keyword n rfl) fun _ => ?_
  refine (condition_leads hk).andThen fun test _ _ _ hr hjoined => ?_
  obtain ⟨_, u, hu, hr⟩ := bind_eq_some hr
  cases hr
  exact Leads.joined_of_maybe (fun _ => semicolon_leads hk) hu hjoined

variable (h : Leads k n 0 grammar.stmt)

include h

theorem whileStmt_leads : Leads k (n + 1) 0 (whileStmt grammar) := by
  have H := (before_backward hk).tie
  refine .bindBehind (H.keyword _ rfl) fun _ => ?_
  exact .bind (H.condition ((before_backward hk).follow n)).tied fun _ => .map h

theorem forStmt_leads : Leads k (n + 1) 0 (forStmt grammar) := by
  have H := (before_backward hk).tie
  have hfollow := (before_backward hk).follow n
  have hsemicolon := H.markSemicolon n (H.firm 0)
  refine .bindBehind (H.keyword _ rfl) fun _ => .bind (H.markOpening n rfl).tied fun _ => ?_
  refine .bind (H.overGap n) fun _ => .bind (H.forInit hfollow).maybe fun _ => ?_
  refine .bind hsemicolon fun _ => .bind (hfollow.expr 1).maybe fun _ => ?_
  refine .bind hsemicolon fun _ => .bind (hfollow.expr 1).maybe fun _ => ?_
  exact .bind (H.markClosing n rfl).tied fun _ => .map h

theorem elseTail_leads : Leads k n 0 elseTail := by
  have H := (before_backward hk).tie
  exact .bind (H.overGap n) fun _ => .bind (H.keyword n rfl) fun _ => h

theorem ifStmt_leads : Leads k (n + 1) 0 (ifStmt grammar) := by
  have H := (before_backward hk).tie
  refine .bindBehind (H.keyword _ rfl) fun _ => ?_
  refine .bind (H.condition ((before_backward hk).follow n)).tied fun test => ?_
  show Leads k n 0 (do
    let t ← grammar.stmt
    let f ← maybe elseTail
    return Stmt.ifElse test t f)
  intro s a r hs hr hjoined
  obtain ⟨body, u, hu, hr⟩ := bind_eq_some hr
  obtain ⟨other, v, hv, hr⟩ := bind_eq_some hr
  cases hr
  refine h s body u hs hu ?_
  have hlength : u.length < s.length := stmt_takes s body u (by rw [← grammar_stmt]; exact hu)
  cases htail : elseTail u with
  | none =>
      rw [maybe_of_none htail] at hv
      cases hv
      exact hjoined
  | some x =>
      rw [maybe_of_some htail] at hv
      cases hv
      exact (elseTail_leads hk h u x.1 x.2 (Nat.lt_trans hlength hs) htail hjoined).joined

theorem stmt_leads : Leads k (n + 1) 0 (stmt grammar) := by
  have H := (before_backward hk).tie
  refine .bind (H.overGap _) fun _ => .orElse (.map char_leads) <| .orElse ?_ <|
    .orElse (functionDecl_leads hk) (terminated_leads hk)
  refine .orElse ?_ <| .orElse (ifStmt_leads hk h) <| .orElse (whileStmt_leads hk h) <|
    .orElse (doStmt_leads hk) <| .orElse (forStmt_leads hk h) (tryStmt_leads hk)
  exact .map (block_leads hk)

omit h in
theorem grammar_leads (n : Nat) : Leads k n 0 grammar.stmt := by
  induction n with
  | zero => exact fun _ _ _ => nofun
  | succ n ih =>
      rw [grammar_stmt]
      exact stmt_leads hk ih

omit h in
/-- Statements that lead to a joint were read from a text with one. -/
theorem joined_of_many {ts : List Stmt} (h : many (stmt grammar) s = some (ts, r))
    (hr : Joined k 0 r) : Joined k 0 s := by
  induction ts generalizing s with
  | nil => exact eq_of_many_nil h ▸ hr
  | cons t ts ih =>
      obtain ⟨u, hu, hts⟩ := of_many_cons stmt_takes h
      rw [← grammar_stmt] at hu
      exact (grammar_leads hk (s.length + 1) s t u (Nat.lt_succ_self _) hu (ih hts)).joined

end

end SmallScript.Grammar
