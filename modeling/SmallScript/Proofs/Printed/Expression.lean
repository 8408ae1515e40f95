import SmallScript.Proofs.Printed.Primary

namespace SmallScript

open SmallScript.Expr Grammar Lexical Scan Token

variable {e l r : Expr} {args items : List Expr} {ts us vs : List Token} {tss : List (List Token)}
  {K : List Char → Prop} {x : String}

/-- The tokens spell the expression, and the rules of the grammar read it back from them, as far as
its shape admits them. -/
structure Expr.ReadBack (e : Expr) (ts : List Token) : Prop where
  spelled : e.Spelled ts
  asCall : e.rank = 0 → e.ReadsCall ts
  asMember : e.isMember = true → e.ReadsMember ts ∧ RefusesNew ts
  asNew : e.isNew = true → e.ReadsNew ts
  asOperand : e.rank ≤ 2 → e.ReadsOperand ts
  asChain : e.rank ≤ 3 → e.ReadsChain ts
  whole : e.ReadsWhole ts
  lead : ∀ f, e.lead = .function f → ∀ us, f.Spelled us → f.Reads us

theorem Expr.rank_of_isMember (h : e.isMember = true) : e.rank = 0 := by
  cases e <;> first | rfl | cases h

theorem Expr.rank_of_isNew (h : e.isNew = true) : e.rank = 0 := by
  cases e <;> first | rfl | cases h

namespace Expr.ReadBack

theorem asBinary (h : e.ReadBack ts) (hevery : e.Every .shape) (hrank : e.rank ≤ 3) :
    e.ReadsBinary ts :=
  ReadsChain.reads (h.asChain hrank) hevery

section

variable (hevery : e.Every .shape) (hspelled : e.Spelled ts)
  (hlead : ∀ f, e.lead = .function f → ∀ us, f.Spelled us → f.Reads us)

include hspelled hlead

theorem of_whole (hrank : 3 < e.rank) (h : e.ReadsWhole ts) : e.ReadBack ts := by
  refine ⟨hspelled, fun h => ?_, fun h => ?_, fun h => ?_, fun h => ?_, fun h => ?_, h, hlead⟩
  · omega
  · have := rank_of_isMember h
    omega
  · have := rank_of_isNew h
    omega
  · omega
  · omega

include hevery

theorem of_operand (hlow : 0 < e.rank) (hhigh : e.rank ≤ 2) (h : e.ReadsOperand ts) :
    e.ReadBack ts := by
  have hstarts := e.starts hevery hspelled
  have hchain := h.chain hstarts (root?_of_rank hhigh)
  refine ⟨hspelled, fun h => ?_, fun h => ?_, fun h => ?_, fun _ => h, fun _ => hchain,
    (hchain.reads hevery).whole hstarts, hlead⟩
  · omega
  · have := rank_of_isMember h
    omega
  · have := rank_of_isNew h
    omega

theorem of_call (hrank : e.rank = 0) (h : e.ReadsCall ts)
    (hmember : e.isMember = true → e.ReadsMember ts ∧ RefusesNew ts)
    (hnew : e.isNew = true → e.ReadsNew ts) : e.ReadBack ts := by
  have hstarts := e.starts hevery hspelled
  rw [hrank] at hstarts
  have hoperand := h.operand hstarts
  have hchain := hoperand.chain hstarts (root?_of_rank (by omega))
  exact ⟨hspelled, fun _ => h, hmember, hnew, fun _ => hoperand, fun _ => hchain,
    (hchain.reads hevery).whole hstarts, hlead⟩

theorem of_primary (hrank : e.rank = 0) (hisNew : e.isNew = false) (h : e.ReadsPrimary ts)
    (hnew : RefusesNew ts) : e.ReadBack ts :=
  of_call hevery hspelled hlead hrank (h.call hnew) (fun _ => ⟨h.member, hnew⟩)
    fun hn => (Bool.false_ne_true (hisNew.symm.trans hn)).elim

end

theorem ident (h : (ident x).Every .shape) : (ident x).ReadBack [.word x] :=
  of_primary h (.ident x) nofun rfl rfl (readsPrimary_of_reads (by rintro _ rfl; exact .ident h))
    (refusesNew (proper_of_isWord (isWord_of_isIdentifier h)) (ne_of_isIdentifier h (by decide)))

theorem number {x : Float} (h : (number x).Every .shape) : (number x).ReadBack [.number x] :=
  of_primary h (.number x) nofun rfl rfl (readsPrimary_of_reads fun _ hl => .number hl)
    (refusesNew trivial nofun)

theorem string {v : String} : (string v).ReadBack [.string v] := by
  refine of_primary trivial (.string v) nofun rfl rfl (readsPrimary_of_reads ?_)
    (refusesNew trivial nofun)
  rintro _ rfl
  have h := quoted_literal v []
  rw [List.append_nil] at h
  exact .string h

theorem bool (b : Bool) : (bool b).ReadBack [.word (if b then "true" else "false")] := by
  have hnumeral {w : String} {c : Char} {cs : List Char} (hw : w.toList = c :: cs)
      (hc : (isDigit c || c == '.') = false) {K : List Char → Prop} :
      Refuses (Flush [.word w] K) (Expr.number <$> Number.Numeral.numeral) :=
    .map (refuses_first Number.Numeral.numeral_first (avoids_word hw hc))
  cases b with
  | true =>
      refine of_primary trivial (.bool true) nofun rfl rfl
        (readsPrimary_keyword (by decide) fun hK => ?_) (refusesNew rfl (word_ne (by decide)))
      exact .right (hnumeral rfl rfl) ((gives_keyword hK "true").bind (.pure (Expr.bool true))).left
  | false =>
      refine of_primary trivial (.bool false) nofun rfl rfl
        (readsPrimary_keyword (by decide) fun hK => ?_) (refusesNew rfl (word_ne (by decide)))
      exact .right (hnumeral rfl rfl) <|
        .right (.bind (refuses_keyword hK rfl rfl (word_ne (by decide))))
          ((gives_keyword hK "false").bind (.pure (Expr.bool false))).left

theorem null : Expr.null.ReadBack [.word "null"] := by
  refine of_primary trivial .null nofun rfl rfl (readsPrimary_keyword (by decide) fun hK => ?_)
    (refusesNew rfl (word_ne (by decide)))
  exact .right (.map (refuses_first Number.Numeral.numeral_first (avoids_word rfl rfl))) <|
    .right (.bind (refuses_keyword hK rfl rfl (word_ne (by decide)))) <|
    .right (.bind (refuses_keyword hK rfl rfl (word_ne (by decide))))
      ((gives_keyword hK "null").bind (.pure _))

theorem paren (hevery : (paren e).Every .shape) (h : e.ReadBack ts) :
    (paren e).ReadBack (bracketed "(" ")" ts) :=
  of_primary hevery (.paren h.spelled) nofun rfl rfl (readsPrimary_paren h.whole)
    (refusesNew rfl (word_ne (by decide)))

theorem array (hevery : (array items).Every .shape) (hspelled : SpelledExprs items tss)
    (h : List.Forall₂ ReadBack items tss) :
    (array items).ReadBack (bracketed "[" "]" (separated tss)) :=
  of_primary hevery (.array hspelled) nofun rfl rfl
    (readsPrimary_array (h.imp fun _ _ he => he.whole)) (refusesNew rfl (word_ne (by decide)))

theorem object {ps : List (String × Expr)} (hevery : (object ps).Every .shape)
    (hspelled : SpelledProperties ps tss) (h : List.Forall₂ (ReadsItem (property grammar)) ps tss) :
    (object ps).ReadBack (bracketed "\x7b" "\x7d" (separated tss)) :=
  of_primary hevery (.object hspelled) nofun rfl rfl (readsPrimary_object h)
    (refusesNew rfl (word_ne (by decide)))

theorem function {f : Function} (hevery : (function f).Every .shape) (hspelled : f.Spelled ts)
    (h : ∀ us, f.Spelled us → f.Reads us) : (function f).ReadBack ts := by
  have hnew : RefusesNew ts := by
    cases hspelled
    exact refusesNew rfl (word_ne (by decide))
  refine of_primary hevery (.function hspelled) ?_ rfl rfl
    (fun _ hK => .left (.map (h ts hspelled hK))) hnew
  rintro _ ⟨⟩
  exact h

theorem field (hevery : (field e x).Every .shape) (h : e.ReadBack ts) :
    (field e x).ReadBack (ts ++ [.word ".", .word x]) := by
  have hdot : (Token.word ".").Proper := rfl
  have hcall : (Expr.field e x).ReadsCall (ts ++ [.word ".", .word x]) := fun _ _ _ hK hxs =>
    (h.asCall hevery.1.1).suffix (x := .field x) hdot
      (fun hK => callSuffix_of_member (avoids_word rfl rfl) (gives_field hevery.1.2 hK)) hK hxs
  have hmember (hm : e.isMember = true) :
      (Expr.field e x).ReadsMember (ts ++ [.word ".", .word x]) := fun _ _ _ hK hxs =>
    (h.asMember hm).1.suffix (x := .field x) hdot (gives_field hevery.1.2) hK hxs
  refine of_call hevery (.field h.spelled x) h.lead rfl hcall (fun hm => ⟨hmember hm, fun _ _ => ?_⟩)
    nofun
  rw [flush_append]
  exact (h.asMember hm).2 ends_spaced_cons

theorem index {k : Expr} (hevery : (index e k).Every .shape) (h : e.ReadBack ts)
    (hk : k.ReadBack us) : (index e k).ReadBack (ts ++ bracketed "[" "]" us) := by
  have hbracket : (Token.word "[").Proper := rfl
  have hcall : (Expr.index e k).ReadsCall (ts ++ bracketed "[" "]" us) := fun _ _ _ hK hxs =>
    (h.asCall hevery.1).suffix (x := .index k) hbracket
      (fun _ => callSuffix_of_member (avoids_word rfl rfl) (gives_index hk.whole)) hK hxs
  have hmember (hm : e.isMember = true) :
      (Expr.index e k).ReadsMember (ts ++ bracketed "[" "]" us) := fun _ _ _ hK hxs =>
    (h.asMember hm).1.suffix (x := .index k) hbracket (fun _ => gives_index hk.whole) hK hxs
  refine of_call hevery (.index h.spelled hk.spelled) h.lead rfl hcall
    (fun hm => ⟨hmember hm, fun _ _ => ?_⟩) nofun
  rw [flush_append]
  exact (h.asMember hm).2 ends_spaced_cons

theorem call (hevery : (call e args).Every .shape) (h : e.ReadBack ts)
    (hspelled : SpelledExprs args tss) (hargs : List.Forall₂ ReadBack args tss) :
    (call e args).ReadBack (ts ++ bracketed "(" ")" (separated tss)) := by
  refine of_call hevery (.call h.spelled hspelled) h.lead rfl (fun _ _ _ hK hxs => ?_) nofun nofun
  refine (h.asCall hevery.1).suffix (t := .word "(") rfl (x := .call args) (fun _ => .left (.map ?_))
    hK hxs
  exact gives_arguments (hargs.imp fun _ _ ha => ha.whole)

theorem new (hevery : (new e args).Every .shape) (h : e.ReadBack ts)
    (hspelled : SpelledExprs args tss) (hargs : List.Forall₂ ReadBack args tss) :
    (new e args).ReadBack (.word "new" :: (ts ++ bracketed "(" ")" (separated tss))) := by
  have hnew := readsNew (hargs.imp fun _ _ ha => ha.whole) (e.starts hevery.2.1 h.spelled)
    (hevery.1.symm.imp h.asNew h.asMember)
  exact of_call hevery (.new h.spelled hspelled) nofun rfl hnew.call nofun fun _ => hnew

theorem unary {op : UnaryOp} (hevery : (unary op e).Every .shape) (h : e.ReadBack ts) :
    (unary op e).ReadBack (.word op.symbol :: ts) :=
  of_operand hevery (.unary op h.spelled) nofun (Nat.zero_lt_succ 1) (Nat.le_refl 2) fun _ hK =>
    (h.asOperand hevery.1).behind (e.starts hevery.2 h.spelled) (leading_unary op) hK

theorem preIncrement (hevery : (update .preIncrement e).Every .shape) (h : e.ReadBack ts) :
    (update .preIncrement e).ReadBack (.word "++" :: ts) := by
  refine of_operand hevery (.preIncrement h.spelled) nofun (Nat.zero_lt_succ 1) (Nat.le_refl 2)
    fun _ hK => ?_
  have hop {r : List Char} (_ : Ends r) :
      leading ("++".toList ++ r) = some (.update .preIncrement, r) := rfl
  exact (h.asOperand hevery.1).behind (e.starts hevery.2 h.spelled) hop hK

theorem preDecrement (hevery : (update .preDecrement e).Every .shape) (h : e.ReadBack ts) :
    (update .preDecrement e).ReadBack (.word "--" :: ts) := by
  refine of_operand hevery (.preDecrement h.spelled) nofun (Nat.zero_lt_succ 1) (Nat.le_refl 2)
    fun _ hK => ?_
  have hop {r : List Char} (_ : Ends r) :
      leading ("--".toList ++ r) = some (.update .preDecrement, r) := rfl
  exact (h.asOperand hevery.1).behind (e.starts hevery.2 h.spelled) hop hK

theorem postIncrement (hevery : (update .postIncrement e).Every .shape) (h : e.ReadBack ts) :
    (update .postIncrement e).ReadBack (ts ++ [.word "++"]) := by
  have hrank : e.rank = 0 := hevery.1
  have hstarts := e.starts hevery.2 h.spelled
  rw [hrank] at hstarts
  refine of_operand hevery (.postIncrement h.spelled) h.lead Nat.one_pos (Nat.le_succ 1)
    fun _ hK => ?_
  exact (h.asCall hrank).step (w := "++") hstarts rfl (avoids_word rfl rfl) (fun _ => rfl) hK

theorem postDecrement (hevery : (update .postDecrement e).Every .shape) (h : e.ReadBack ts) :
    (update .postDecrement e).ReadBack (ts ++ [.word "--"]) := by
  have hrank : e.rank = 0 := hevery.1
  have hstarts := e.starts hevery.2 h.spelled
  rw [hrank] at hstarts
  refine of_operand hevery (.postDecrement h.spelled) h.lead Nat.one_pos (Nat.le_succ 1)
    fun _ hK => ?_
  exact (h.asCall hrank).step (w := "--") hstarts rfl (avoids_word rfl rfl) (fun _ => rfl) hK

theorem binary {op : BinaryOp} (hevery : (binary op l r).Every .shape) (hl : l.ReadBack ts)
    (hr : r.ReadBack us) : (binary op l r).ReadBack (ts ++ .word op.symbol :: us) := by
  have hchain : (Expr.binary op l r).ReadsChain (ts ++ .word op.symbol :: us) :=
    (hl.asChain hevery.1.1.1).binary (hr.asChain hevery.1.2.1) op (r.starts hevery.2.2 hr.spelled)
  have hspelled : (Expr.binary op l r).Spelled (ts ++ .word op.symbol :: us) :=
    .binary op hl.spelled hr.spelled
  refine ⟨hspelled, nofun, nofun, nofun, fun h => ?_, fun _ => hchain, ?_, hl.lead⟩
  · exact (Nat.not_succ_le_self 2 h).elim
  · exact (ReadsChain.reads hchain hevery).whole (Expr.starts _ hevery hspelled)

theorem assign {op : AssignOp} (hevery : (assign op l r).Every .shape) (hl : l.ReadBack ts)
    (hr : r.ReadBack us) : (assign op l r).ReadBack (ts ++ .word op.symbol :: us) :=
  of_whole (.assign op hl.spelled hr.spelled) hl.lead
    (Nat.lt_add_of_pos_right (Nat.zero_lt_succ 1)) ((hl.asBinary hevery.2.1 hevery.1).assign hr.whole
      (l.starts hevery.2.1 hl.spelled) (r.starts hevery.2.2 hr.spelled) op)

theorem cond {c t f : Expr} (hevery : (cond c t f).Every .shape) (hc : c.ReadBack ts)
    (ht : t.ReadBack us) (hf : f.ReadBack vs) :
    (cond c t f).ReadBack (ts ++ .word "?" :: (us ++ .word ":" :: vs)) :=
  of_whole (.cond hc.spelled ht.spelled hf.spelled) hc.lead (Nat.lt_succ_self 3)
    ((hc.asBinary hevery.2.1 hevery.1).cond ht.whole hf.whole (c.starts hevery.2.1 hc.spelled))

end Expr.ReadBack

end SmallScript
