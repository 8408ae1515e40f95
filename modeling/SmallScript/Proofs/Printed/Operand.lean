import SmallScript.Proofs.Printed.Follow
import SmallScript.Proofs.Printed.Spelling

namespace SmallScript

open Grammar Lexical Scan Token

variable {t : Token} {ts us vs : List Token} {K : List Char → Prop} {w x : String} {s k : List Char}

namespace Token

def primaryWords : List String := ["true", "false", "null", "(", "[", "\x7b", "function", "new"]

def prefixWords : List String := ["++", "--", "typeof", "~", "!", "-", "+"]

def IsPrimary : Token → Prop
  | word w => IsIdentifier w ∨ w ∈ primaryWords
  | number _ | string _ => True

def IsPrefix : Token → Prop
  | word w => w ∈ prefixWords
  | number _ | string _ => False

theorem IsPrimary.proper (h : t.IsPrimary) : t.Proper := by
  cases t with
  | number | string => exact trivial
  | word w =>
      rcases h with h | h
      · exact proper_of_isWord (isWord_of_isIdentifier h)
      · have hall : ∀ w ∈ primaryWords,
            isProper w = true := by decide
        exact hall w h

theorem IsPrefix.proper (h : t.IsPrefix) : t.Proper := by
  cases t with
  | number | string => exact trivial
  | word w =>
      have hall : ∀ w ∈ prefixWords, isProper w = true := by decide
      exact hall w h

theorem IsPrimary.avoids (h : t.IsPrimary) {d : Char}
    (hd : (isFront d || (d == '[' || d == '\x7b')) = false) : t.Avoids (· == d) := by
  simp only [Bool.or_eq_false_iff] at hd
  obtain ⟨hfront, hsquare, hbrace⟩ := hd
  simp only [isFront, Bool.or_eq_false_iff] at hfront
  obtain ⟨⟨⟨hname, hdigit, hpoint⟩, hquote⟩, hround⟩ := hfront
  cases t with
  | number x =>
      refine avoids_number fun c hc => beq_eq_false_of_class
        (F := fun c => isDigit c || c == '.') hc ?_
      rw [hdigit, hpoint]
      rfl
  | string v => exact avoids_string (beq_eq_false_of_class (F := isQuote) rfl hquote)
  | word w =>
      have hstart {c : Char} (hc : isNameStart c = true) : (c == d) = false :=
        beq_eq_false_of_class hc hname
      rcases h with h | h
      · exact avoids_name (isWord_of_isIdentifier h) fun _ => hstart
      · simp only [primaryWords, List.mem_cons, List.not_mem_nil, or_false] at h
        rw [Bool.beq_comm] at hsquare hbrace hround
        rcases h with rfl | rfl | rfl | rfl | rfl | rfl | rfl | rfl
        · exact avoids_word rfl (hstart rfl)
        · exact avoids_word rfl (hstart rfl)
        · exact avoids_word rfl (hstart rfl)
        · exact avoids_word rfl hround
        · exact avoids_word rfl hsquare
        · exact avoids_word rfl hbrace
        · exact avoids_word rfl (hstart rfl)
        · exact avoids_word rfl (hstart rfl)

theorem IsPrimary.ne (h : t.IsPrimary) (hw : w ∈ reservedWords) (hne : w ∉ primaryWords) :
    t ≠ word w := by
  rintro rfl
  rcases h with h | h
  · exact ne_of_isIdentifier h hw rfl
  · exact hne h

theorem IsPrefix.ne (h : t.IsPrefix) (hne : w ∉ prefixWords) : t ≠ word w := by
  rintro rfl
  exact hne h

end Token

theorem refuses_leading (hK : Follower Ends K) (ht : t.IsPrimary) :
    Refuses (Flush (t :: ts) K) leading := by
  have hne : t ≠ .word "typeof" := ht.ne (by decide) (by decide)
  refine .orElse (.bind (refuses_first (.text rfl) (ht.avoids rfl))) <|
    .orElse (.bind (refuses_first (.text rfl) (ht.avoids rfl))) <|
    .orElse (.bind (refuses_keyword hK ht.proper rfl hne)) <|
    .orElse (.bind (refuses_first (.char _) (ht.avoids rfl))) <|
    .orElse (.bind (refuses_first (.char _) (ht.avoids rfl))) <|
    .orElse (.bind (refuses_first (.char _) (ht.avoids rfl)))
      (.bind (refuses_first (.char _) (ht.avoids rfl)))

def Starts (n : Nat) (ts : List Token) : Prop :=
  ∃ t us, ts = t :: us ∧ (t.IsPrimary ∨ 1 < n ∧ t.IsPrefix)

theorem Starts.append {n m : Nat} (h : Starts n ts) (hm : n ≤ m) (us : List Token) :
    Starts m (ts ++ us) := by
  obtain ⟨t, vs, rfl, ht⟩ := h
  refine ⟨t, vs ++ us, rfl, ht.imp_right fun h => ⟨Nat.lt_of_lt_of_le h.1 hm, h.2⟩⟩

theorem Starts.proper {n : Nat} (h : Starts n ts) : ∃ t us, ts = t :: us ∧ t.Proper := by
  obtain ⟨t, us, rfl, ht⟩ := h
  exact ⟨t, us, rfl, ht.elim IsPrimary.proper fun h => h.2.proper⟩

theorem Starts.ne {n : Nat} (h : Starts n (t :: ts)) (hw : w ∈ reservedWords)
    (hne : w ∉ primaryWords ++ prefixWords) : t ≠ .word w := by
  rw [List.mem_append, not_or] at hne
  obtain ⟨_, _, heq, ht⟩ := h
  cases heq
  exact ht.elim (fun h => h.ne hw hne.1) fun h => h.2.ne hne.2

theorem starts_word {n : Nat} (hw : w ∈ primaryWords) : Starts n (.word w :: ts) :=
  ⟨_, _, rfl, .inl (.inr hw)⟩

theorem Expr.starts : (e : Expr) → e.Every .shape → {ts : List Token} → e.Spelled ts →
    Starts e.rank ts
  | .ident x, h, _, .ident _ => ⟨_, _, rfl, .inl (.inl h)⟩
  | .number x, _, _, .number _ => ⟨_, _, rfl, .inl trivial⟩
  | .bool b, _, _, .bool _ => starts_word (by cases b <;> decide)
  | .null, _, _, .null => starts_word (by decide)
  | .string v, _, _, .string _ => ⟨_, _, rfl, .inl trivial⟩
  | .paren e, _, _, .paren _ => starts_word (by decide)
  | .array items, _, _, .array _ => starts_word (by decide)
  | .object properties, _, _, .object _ => starts_word (by decide)
  | .function _, _, _, .function hf => by
      cases hf
      exact starts_word (by decide)
  | .new e args, _, _, .new _ _ => starts_word (by decide)
  | .field e x, h, _, .field he _ => (e.starts h.2 he).append (Nat.le_of_eq h.1.1) _
  | .index e k, h, _, .index he _ => (e.starts h.2.1 he).append (Nat.le_of_eq h.1) _
  | .call e args, h, _, .call he _ => (e.starts h.2.1 he).append (Nat.le_of_eq h.1) _
  | .binary op l r, h, _, .binary _ hl _ => (l.starts h.2.1 hl).append h.1.1.1 _
  | .assign op l r, h, _, .assign _ hl _ =>
      (l.starts h.2.1 hl).append (Nat.le_trans h.1 (Nat.le_add_right 3 2)) _
  | .cond c t f, h, _, .cond hc _ _ =>
      (c.starts h.2.1 hc).append (Nat.le_trans h.1 (Nat.le_succ 3)) _
  | .unary op e, _, _, .unary _ _ => ⟨_, _, rfl, .inr ⟨Nat.lt_succ_self 1, by
      have : op.symbol ∈ prefixWords := by cases op <;> decide
      exact this⟩⟩
  | .update .preIncrement e, _, _, .preIncrement _ =>
      ⟨_, _, rfl, .inr ⟨Nat.lt_succ_self 1, List.mem_cons_self⟩⟩
  | .update .preDecrement e, _, _, .preDecrement _ =>
      ⟨_, _, rfl, .inr ⟨Nat.lt_succ_self 1, List.mem_cons_of_mem _ List.mem_cons_self⟩⟩
  | .update .postIncrement e, h, _, .postIncrement he =>
      (e.starts h.2 he).append (Nat.le_trans (Nat.le_of_eq h.1) (Nat.zero_le 1)) _
  | .update .postDecrement e, h, _, .postDecrement he =>
      (e.starts h.2 he).append (Nat.le_trans (Nat.le_of_eq h.1) (Nat.zero_le 1)) _

namespace Expr

variable (e : Expr) (ts : List Token)

def ReadsPrimary : Prop :=
  ∀ ⦃K⦄, Follower Ends K → Gives (Flush ts K) (primary grammar) e K

def ReadsCall : Prop := ∀ ⦃K R⦄ (xs : List Suffix), Follower Ends K →
  Gives K (many (do gap; callSuffix grammar)) xs R →
    Gives (Flush ts K) (callExpr grammar) (xs.foldl Suffix.apply e) R

def ReadsMember : Prop := ∀ ⦃K R⦄ (xs : List Suffix), Follower Ends K →
  Gives K (many (do gap; memberSuffix grammar)) xs R →
    Gives (Flush ts K) (member grammar) (xs.foldl Suffix.apply e) R

def ReadsNew : Prop :=
  ∀ ⦃K⦄, Follower Ends K → Gives (Flush ts K) (newExpr grammar) e K

def ReadsOperand : Prop :=
  ∀ ⦃K⦄, Follower Stops K → Gives (Flush ts K) (unaryExpr grammar) e K

def ReadsBinary : Prop :=
  ∀ ⦃K⦄, Follower Closes K → Gives (Flush ts K) (binaryExpr grammar) e K

def ReadsWhole : Prop :=
  ∀ ⦃K⦄, Follower Done K → Gives (Spaced ts K) (Grammar.expr grammar) e K

end Expr

structure Atomic where
  text : List Char
  value : Expr
  leaf : value.root? = none
  skip (k : List Char) : skipGap (text ++ k) = text ++ k
  reads {k : List Char} (hk : Stops k) : unaryExpr grammar (text ++ k) = some (value, k)

instance : Atom Atomic where
  text := Atomic.text
  value := Atomic.value
  leaf := Atomic.leaf
  skip := Atomic.skip
  reads a _ := a.reads

def Expr.ReadsChain (e : Expr) (ts : List Token) : Prop := ∀ ⦃K s⦄, Flush ts K s →
  ∃ (c : Chain Atomic) (k : List Char), s = c.text ++ k ∧ K k ∧ c.inorder = e.inorder

theorem spaced_split (h : Spaced ts K s) :
    ∃ l k, s = l ++ k ∧ K k ∧ ∀ k', Spaced ts (· = k') (l ++ k') := by
  induction ts generalizing s with
  | nil => exact ⟨[], s, rfl, h, fun _ => rfl⟩
  | cons t ts ih =>
      obtain ⟨l, r, rfl, hl, hr⟩ := h
      obtain ⟨l', k, rfl, hk, hl'⟩ := ih hr
      refine ⟨' ' :: (l ++ l'), k, by simp, hk, fun k' => ⟨l, l' ++ k', by simp, hl, hl' k'⟩⟩

theorem flush_split (h : Flush (t :: ts) K s) :
    ∃ l k, s = l ++ k ∧ K k ∧ ∀ k', Flush (t :: ts) (· = k') (l ++ k') := by
  obtain ⟨l, r, rfl, hl, hr⟩ := flush_cons.mp h
  obtain ⟨l', k, rfl, hk, hl'⟩ := spaced_split hr
  refine ⟨l ++ l', k, (List.append_assoc l l' k).symm, hk, fun k' => ?_⟩
  exact flush_cons.mpr ⟨l, l' ++ k', List.append_assoc l l' k', hl, hl' k'⟩

namespace Expr

variable {e l r : Expr}

theorem ReadsOperand.chain {n : Nat} (h : e.ReadsOperand ts) (hstarts : Starts n ts)
    (hleaf : e.root? = none) : e.ReadsChain ts := by
  intro K s hs
  obtain ⟨t, us, rfl, ht⟩ := hstarts.proper
  obtain ⟨l, k, rfl, hk, hl⟩ := flush_split hs
  refine ⟨⟨⟨l, e, hleaf, fun k' => flush_skip ht (hl k'), fun {k'} hk' => ?_⟩, []⟩, k, ?_, hk, ?_⟩
  · have hfollow : Follower Stops (· = k') := by
      rintro _ rfl
      exact hk'
    obtain ⟨r, hr, rfl⟩ := h hfollow (l ++ k') (hl k')
    exact hr
  · rw [Chain.text, List.flatMap_nil, List.append_nil]
    rfl
  · rw [inorder_of_root? hleaf]
    rfl

def space : Spacing := ⟨[' '], .blank ' ' rfl .nil, ' ', [], rfl, rfl⟩

theorem ReadsChain.binary {n : Nat} (hl : l.ReadsChain ts) (hr : r.ReadsChain us) (op : BinaryOp)
    (hstarts : Starts n us) : (binary op l r).ReadsChain (ts ++ .word op.symbol :: us) := by
  intro K s hs
  rw [flush_append] at hs
  obtain ⟨c, _, rfl, ⟨_, u, rfl, rfl, hu⟩, hc⟩ := hl hs
  obtain ⟨t, vs, rfl, ht⟩ := hstarts.proper
  obtain ⟨v, rfl⟩ : ∃ v, u = ' ' :: v := by
    obtain ⟨_, _, rfl, -⟩ := hu
    exact ⟨_, rfl⟩
  obtain ⟨d, k, rfl, hk, hd⟩ := hr hu
  refine ⟨⟨c.first, c.links ++ ⟨space, op, space, d.first⟩ :: d.links⟩, k, ?_, hk, ?_⟩
  · simp [Chain.text, Link.text, space]
  · rw [inorder, ← hc, ← hd]
    simp [Chain.inorder, Link.inorder]

theorem grouped_of_every (h : e.Every .shape) : e.Grouped := by
  induction e using inorder.induct with
  | case1 op l r ihl ihr => exact ⟨h.1.1.2, h.1.2.2, ihl h.2.1, ihr h.2.2⟩
  | case2 t ht => exact .of_root? (root?_of_ne_binary ht)

theorem ReadsChain.reads (h : e.ReadsChain ts) (hevery : e.Every .shape) : e.ReadsBinary ts := by
  intro K hK s hs
  obtain ⟨c, k, rfl, hk, hc⟩ := h hs
  obtain ⟨t, ht, hinorder, hgrouped⟩ := binaryExpr_chain (hK k hk) c
  rw [hgrouped.unique (grouped_of_every hevery) (hinorder.trans hc)] at ht
  exact ⟨k, ht, hk⟩

theorem gives_gap_starts {n : Nat} (h : Starts n ts) :
    Gives (Spaced ts K) gap () (Flush ts K) := by
  obtain ⟨t, us, rfl, ht⟩ := h.proper
  exact gives_gap ht

theorem ReadsBinary.whole {n : Nat} (h : e.ReadsBinary ts) (hstarts : Starts n ts) :
    e.ReadsWhole ts := by
  intro K hK
  have hbranches : Refuses K (branches grammar) := fun k hk => (hK k hk).branches
  have htail : Refuses K assignTail := fun k hk => (hK k hk).assignTail
  have hconditional : Gives (Flush ts K) (conditional grammar) e K :=
    (h fun k hk => (hK k hk).closes).bind ((Gives.nothing hbranches).bind (.pure e))
  exact (gives_gap_starts hstarts).bind (hconditional.bind ((Gives.nothing htail).bind (.pure e)))

theorem ReadsWhole.value (h : e.ReadsWhole ts) (hK : Follower Done K) :
    Gives (Spaced ts K) grammar.expr e K := by
  rw [grammar_expr]
  exact h hK

theorem ReadsBinary.cond {n : Nat} {c t f : Expr} (hc : c.ReadsBinary ts) (ht : t.ReadsWhole us)
    (hf : f.ReadsWhole vs) (hstarts : Starts n ts) :
    (cond c t f).ReadsWhole (ts ++ .word "?" :: (us ++ .word ":" :: vs)) := by
  intro K hK
  have hbranches : Gives (Spaced (.word "?" :: (us ++ .word ":" :: vs)) K)
      (branches grammar) (t, f) K := by
    refine (gives_mark rfl (by decide)).bind ?_
    rw [spaced_append]
    refine (ht.value (done_word rfl (by decide))).bind ((gives_mark rfl (by decide)).bind ?_)
    exact (hf.value hK).bind (.pure _)
  have htail : Refuses K assignTail := fun k hk => (hK k hk).assignTail
  have hconditional : Gives (Flush (ts ++ .word "?" :: (us ++ .word ":" :: vs)) K)
      (conditional grammar) (.cond c t f) K := by
    rw [flush_append]
    exact (hc closes_question).bind (hbranches.maybe.bind (.pure _))
  refine (gives_gap_starts (n := n) ?_).bind
    (hconditional.bind ((Gives.nothing htail).bind (.pure _)))
  exact hstarts.append (Nat.le_refl _) _

theorem gives_assignOp (op : AssignOp) :
    Gives (Flush (.word op.symbol :: t :: ts) K) assignOp op (Spaced (t :: ts) K) := by
  intro s hs
  obtain ⟨_, r, rfl, rfl, hr⟩ := flush_cons.mp hs
  refine ⟨r, ?_, hr⟩
  obtain ⟨l, u, rfl, -⟩ := hr
  cases op <;> rfl

theorem ReadsBinary.assign {n m : Nat} {l r : Expr} (hl : l.ReadsBinary ts) (hr : r.ReadsWhole us)
    (hstartsl : Starts n ts) (hstartsr : Starts m us) (op : AssignOp) :
    (assign op l r).ReadsWhole (ts ++ .word op.symbol :: us) := by
  intro K hK
  obtain ⟨t, vs, rfl, -⟩ := hstartsr
  have hproper : (Token.word op.symbol).Proper := by cases op <;> exact rfl
  have hquestion : (Token.word op.symbol).Avoids (· == '?') := by
    cases op <;> exact avoids_word rfl rfl
  have hbranches : Refuses (Spaced (.word op.symbol :: t :: vs) K) (branches grammar) :=
    .bind (refuses_mark hproper hquestion)
  have htail : Gives (Spaced (.word op.symbol :: t :: vs) K) assignTail (op, r) K :=
    (gives_gap hproper).bind ((gives_assignOp op).bind ((hr.value hK).bind (.pure _)))
  have hconditional : Gives (Flush (ts ++ .word op.symbol :: t :: vs) K) (conditional grammar) l
      (Spaced (.word op.symbol :: t :: vs) K) := by
    rw [flush_append]
    exact (hl (closes_assign op)).bind ((Gives.nothing hbranches).bind (.pure _))
  refine (gives_gap_starts (n := n) ?_).bind (hconditional.bind (htail.maybe.bind (.pure _)))
  exact hstartsl.append (Nat.le_refl _) _

theorem leading_unary (op : UnaryOp) {r : List Char} (hr : Ends r) :
    leading (op.symbol.toList ++ r) = some (.unary op, r) := by
  have hsingle {c : Char} (hc : isLexical c = true) : chars [c, c] (c :: r) = none := by
    cases r with
    | nil => exact if_pos rfl
    | cons d r =>
        refine (if_pos rfl).trans (if_neg ?_)
        rintro rfl
        exact Bool.false_ne_true ((hr d r rfl).symm.trans hc)
  cases op with
  | bitNot | not => rfl
  | minus =>
      refine (orElse_of_none rfl).trans ((orElse_of_none (bind_of_none ?_)).trans rfl)
      exact hsingle (c := '-') rfl
  | plus =>
      refine (orElse_of_none (bind_of_none ?_)).trans rfl
      exact hsingle (c := '+') rfl
  | typeOf =>
      have hkeyword : keyword "typeof" ("typeof".toList ++ r) = some ((), r) := by
        rw [keyword, text, bind_of_some (chars_append _ r)]
        refine notNext_eq_some_iff.mpr ⟨rfl, fun c u hu => ?_⟩
        rw [← Bool.not_eq_true]
        intro hc
        exact Bool.false_ne_true ((hr c u hu).symm.trans (isLexical_of_isNamePart hc))
      refine (orElse_of_none rfl).trans ((orElse_of_none rfl).trans (orElse_of_some ?_))
      exact (bind_of_some hkeyword).trans rfl

theorem ReadsOperand.behind {n : Nat} (h : e.ReadsOperand ts) (hstarts : Starts n ts)
    {op : Leading} (hop : ∀ {r}, Ends r → leading (w.toList ++ r) = some (op, r))
    (hK : Follower Stops K) :
    Gives (Flush (.word w :: ts) K) (unaryExpr grammar) (op.apply e) K := by
  intro s hs
  obtain ⟨_, r, rfl, rfl, hr⟩ := flush_cons.mp hs
  obtain ⟨_, hgap, hflush⟩ := gives_gap_starts hstarts r hr
  obtain ⟨k, hk, hKk⟩ := h hK _ hflush
  rw [unaryExpr] at hk
  obtain ⟨ops, u, hops, hpostfix⟩ := bind_eq_some hk
  have hends : Ends r := ends_spaced (fun k hk => (hK k hk).ends) r hr
  have hmany : many (do let op ← leading; gap; return op) (w.toList ++ r) = some (op :: ops, u) := by
    refine (many_of_some takes_leading ?_).trans (congrArg _ hops)
    rw [bind_of_some (hop hends), bind_of_some hgap]
    rfl
  refine ⟨k, ?_, hKk⟩
  rw [unaryExpr, bind_of_some hmany]
  obtain ⟨e', v, he', heq⟩ := bind_eq_some hpostfix
  cases heq
  rw [bind_of_some he']
  rfl

theorem ReadsCall.unchanged (h : e.ReadsCall ts) (hK : Follower Stops K) :
    Gives (Flush ts K) (postfixExpr grammar) e K := by
  have hsuffix : Refuses K (do gap; callSuffix grammar) := fun k hk => (hK k hk).suffix
  have hstep : Refuses K (do inlineGap; stepAfter) := fun k hk => (hK k hk).step
  exact (h [] (fun k hk => (hK k hk).ends) (.done hsuffix)).bind ((Gives.nothing hstep).bind (.pure e))

theorem ReadsCall.operand (h : e.ReadsCall ts) (hstarts : Starts 0 ts) : e.ReadsOperand ts := by
  intro K hK
  obtain ⟨t, us, rfl, ht | ⟨hrank, -⟩⟩ := hstarts
  · have hleading : Refuses (Flush (t :: us) K) (do let op ← leading; gap; return op) :=
      .bind (refuses_leading (fun k hk => (hK k hk).ends) ht)
    exact (Gives.done hleading).bind ((h.unchanged hK).bind (.pure e))
  · cases hrank

theorem ReadsCall.step (h : e.ReadsCall ts) (hstarts : Starts 0 ts) {op : UpdateOp}
    (hw : isProper w = true) (hsuffix : (Token.word w).Avoids fun c => c == '(' || (c == '.' || c == '['))
    (hop : ∀ r, stepAfter (w.toList ++ r) = some (op, r)) (hK : Follower Stops K) :
    Gives (Flush (ts ++ [.word w]) K) (unaryExpr grammar) (.update op e) K := by
  have hends : Follower Ends K := fun k hk => (hK k hk).ends
  obtain ⟨t, us, rfl, ht | ⟨hrank, -⟩⟩ := hstarts
  · have hleading : Refuses (Flush (t :: us ++ [.word w]) K) (do let op ← leading; gap; return op) :=
      .bind (refuses_leading hends ht)
    have hnone : Refuses (Spaced [.word w] K) (do gap; callSuffix grammar) :=
      (gives_gap (t := .word w) hw).refuses (refuses_first (callSuffix_first grammar) hsuffix)
    have hstep : Gives (Spaced [.word w] K) (do inlineGap; stepAfter) op K := by
      refine (gives_inlineGap (t := .word w) hw).bind fun s hs => ?_
      obtain ⟨_, r, rfl, rfl, hr⟩ := flush_cons.mp hs
      exact ⟨r, hop r, hr⟩
    have hwhole : Gives (Flush (t :: us ++ [.word w]) K) (postfixExpr grammar) (.update op e) K := by
      rw [flush_append]
      exact (h [] ends_spaced_cons (.done hnone)).bind (hstep.maybe.bind (.pure _))
    exact (Gives.done hleading).bind (hwhole.bind (.pure _))
  · cases hrank

end Expr

end SmallScript
