import SmallScript.Proofs.Printed.Operand

namespace SmallScript

open SmallScript.Expr Grammar Lexical Scan Token

variable {t : Token} {ts us : List Token} {tss : List (List Token)} {K : List Char → Prop}
  {w x : String} {e : Expr}

/-- The item is read from the tokens, whatever may follow an expression stands behind them. -/
def ReadsItem {α : Type} (item : Scan α) (a : α) (ts : List Token) : Prop :=
  ∀ ⦃K⦄, Follower Done K → Gives (Spaced ts K) item a K

section

variable {α : Type} {item : Scan α} {as : List α}

theorem done_rest (hK : Follower Done K) :
    Follower Done (Spaced (tss.flatMap (Token.word "," :: ·)) K) := by
  cases tss with
  | nil => exact hK
  | cons ts tss =>
      rw [List.flatMap_cons, List.cons_append]
      exact done_word rfl (by decide)

theorem gives_rest (hitems : List.Forall₂ (ReadsItem item) as tss)
    (hfollows : ∀ n, Follows 1 n (Same 0) (Same 0) item item) (hK : Follower Done K)
    (hcomma : Refuses K comma) :
    Gives (Spaced (tss.flatMap (Token.word "," :: ·)) K) (many (do comma; item)) as K := by
  have htakes : Takes (do comma; item) :=
    takes_of_follows fun n => Same.tie.comma.bind fun _ => hfollows n
  induction hitems with
  | nil => exact .done (.bind hcomma)
  | cons hitem _ ih =>
      rw [List.flatMap_cons, List.cons_append]
      refine .many htakes ((gives_mark rfl (by decide)).bind ?_) ih
      rw [spaced_append]
      exact hitem (done_rest hK)

theorem gives_sepBy (hitems : List.Forall₂ (ReadsItem item) as tss)
    (hfollows : ∀ n, Follows 1 n (Same 0) (Same 0) item item) {c : Char}
    (hw : w.toList = [c]) (hc : c ∈ [')', ']', '\x7d'])
    (hnone : Refuses (Spaced (.word w :: us) K) item) :
    Gives (Spaced (separated tss) (Spaced (.word w :: us) K)) (sepBy item comma) as
      (Spaced (.word w :: us) K) := by
  have hcloser : ∀ c ∈ [')', ']', '\x7d'], c ∈ closers ∧ (c == ',') = false ∧
      isGapBlank true c = false ∧ isNameStart c = false ∧ c ≠ '/' :=
    List.all_iff_forall_prop.mp (by decide)
  obtain ⟨hclosers, hcomma, hblank, hname, hslash⟩ := hcloser c hc
  have hproper : (Token.word w).Proper := by
    rw [Token.Proper, isProper, hw]
    split
    next heq => exact (hslash (List.cons.inj heq).1).elim
    next d ds _ heq =>
        cases heq
        rw [hblank, hname]
        simp
    next heq => cases heq
  have hcomma : Refuses (Spaced (.word w :: us) K) comma :=
    refuses_mark hproper (avoids_word hw hcomma)
  have hdone : Follower Done (Spaced (.word w :: us) K) := done_word hw hclosers
  cases hitems with
  | nil => exact (Gives.nothing hnone).bind (.pure _)
  | cons hitem hitems =>
      rw [separated, spaced_append]
      exact (hitem (done_rest hdone)).maybe.bind
        ((gives_rest hitems hfollows hdone hcomma).bind (.pure _))

end

theorem follows_expr (n : Nat) : Follows 1 n (Same 0) (Same 0) grammar.expr grammar.expr :=
  (grammar_follow n).expr 0

theorem gives_items {items : List Expr} (h : List.Forall₂ ReadsWhole items tss) {c : Char}
    (hw : w.toList = [c]) (hc : c ∈ [')', ']', '\x7d']) :
    Gives (Spaced (separated tss) (Spaced (.word w :: us) K)) (sepBy grammar.expr comma) items
      (Spaced (.word w :: us) K) := by
  refine gives_sepBy (h.imp fun _ _ he _ => he.value) follows_expr hw hc ?_
  rw [grammar_expr]
  have hcloser : ∀ c ∈ [')', ']', '\x7d'], c ∈ closers := List.all_iff_forall_prop.mp (by decide)
  exact refuses_expr hw (hcloser c hc)

theorem gives_arguments {args : List Expr} (h : List.Forall₂ ReadsWhole args tss) :
    Gives (Flush (bracketed "(" ")" (separated tss)) K) (arguments grammar) args K := by
  rw [bracketed]
  refine (gives_char rfl).bind ?_
  rw [spaced_append]
  exact (gives_items h rfl (by decide)).bind ((gives_mark rfl (by decide)).bind (.pure _))

theorem gives_index {key : Expr} (h : key.ReadsWhole us) :
    Gives (Flush (bracketed "[" "]" us) K) (memberSuffix grammar) (.index key) K := by
  have hfield : Refuses (Flush (bracketed "[" "]" us) K) fieldSuffix :=
    .bind (refuses_first (.char '.') (avoids_word rfl rfl))
  refine .right hfield ((gives_char rfl).bind ?_)
  rw [spaced_append]
  refine (h.value (done_word rfl (by decide))).bind ((gives_mark rfl (by decide)).bind (.pure _))

theorem gives_field (hx : isWord x = true) (hK : Follower Ends K) :
    Gives (Flush [.word ".", .word x] K) (memberSuffix grammar) (.field x) K := by
  refine .left ((gives_char rfl).bind ?_)
  exact (gives_gap (proper_of_isWord hx)).bind (.map (gives_name hK hx))

theorem Expr.ReadsCall.suffix (h : e.ReadsCall ts) (ht : t.Proper) {x : Suffix}
    (hx : ∀ {K}, Follower Ends K → Gives (Flush (t :: us) K) (callSuffix grammar) x K)
    {R : List Char → Prop} {xs : List Suffix} (hK : Follower Ends K)
    (hxs : Gives K (many (do gap; callSuffix grammar)) xs R) :
    Gives (Flush (ts ++ t :: us) K) (callExpr grammar) (xs.foldl Suffix.apply (x.apply e)) R := by
  rw [flush_append]
  exact h (x :: xs) ends_spaced_cons (.many takes_callSuffix ((gives_gap ht).bind (hx hK)) hxs)

theorem Expr.ReadsMember.suffix (h : e.ReadsMember ts) (ht : t.Proper) {x : Suffix}
    (hx : ∀ {K}, Follower Ends K → Gives (Flush (t :: us) K) (memberSuffix grammar) x K)
    {R : List Char → Prop} {xs : List Suffix} (hK : Follower Ends K)
    (hxs : Gives K (many (do gap; memberSuffix grammar)) xs R) :
    Gives (Flush (ts ++ t :: us) K) (member grammar) (xs.foldl Suffix.apply (x.apply e)) R := by
  rw [flush_append]
  exact h (x :: xs) ends_spaced_cons (.many takes_memberSuffix ((gives_gap ht).bind (hx hK)) hxs)

theorem callSuffix_of_member {x : Suffix} (ht : t.Avoids (· == '('))
    (hx : Gives (Flush (t :: us) K) (memberSuffix grammar) x K) :
    Gives (Flush (t :: us) K) (callSuffix grammar) x K :=
  .right (.map (refuses_first (arguments_first grammar) ht)) hx

def RefusesNew (ts : List Token) : Prop :=
  ∀ ⦃K⦄, Follower Ends K → Refuses (Flush ts K) (newExpr grammar)

theorem refusesNew (ht : t.Proper) (hne : t ≠ .word "new") : RefusesNew (t :: ts) :=
  fun _ hK => .bind (refuses_keyword hK ht rfl hne)

theorem Expr.ReadsPrimary.call (h : e.ReadsPrimary ts) (hnew : RefusesNew ts) : e.ReadsCall ts :=
  fun _ _ _ hK hxs => (Gives.right (hnew hK) (h hK)).bind (hxs.bind (.pure _))

theorem Expr.ReadsPrimary.member (h : e.ReadsPrimary ts) : e.ReadsMember ts :=
  fun _ _ _ hK hxs => (h hK).bind (hxs.bind (.pure _))

theorem Expr.ReadsNew.call (h : e.ReadsNew ts) : e.ReadsCall ts :=
  fun _ _ _ hK hxs => (h hK).left.bind (hxs.bind (.pure _))

theorem readsNew {n : Nat} {args : List Expr} (hargs : List.Forall₂ ReadsWhole args tss)
    (hstarts : Starts n ts) (he : e.ReadsNew ts ∨ e.ReadsMember ts ∧ RefusesNew ts) :
    (new e args).ReadsNew (.word "new" :: (ts ++ bracketed "(" ")" (separated tss))) := by
  intro K hK
  refine (gives_keyword hK "new").bind ?_
  refine (gives_gap_starts (hstarts.append (Nat.le_refl _) _)).bind ?_
  have hround : (Token.word "(").Proper := rfl
  have hcallee : Gives (Flush (ts ++ bracketed "(" ")" (separated tss)) K)
      (grammar.newExpr <|> Grammar.member grammar) e
      (Spaced (bracketed "(" ")" (separated tss)) K) := by
    rw [flush_append, grammar_newExpr]
    rcases he with he | ⟨he, hnew⟩
    · exact (he ends_spaced_cons).left
    · have hsuffix : Refuses (Spaced (bracketed "(" ")" (separated tss)) K)
          (do gap; memberSuffix grammar) :=
        (gives_gap hround).refuses (refuses_first (memberSuffix_first grammar) (avoids_word rfl rfl))
      exact .right (hnew ends_spaced_cons) (he [] ends_spaced_cons (.done hsuffix))
  have harguments : Gives (Spaced (bracketed "(" ")" (separated tss)) K) (do gap; arguments grammar)
      args K :=
    (gives_gap hround).bind (gives_arguments hargs)
  exact hcallee.bind (harguments.maybe.bind (.pure _))

theorem word_ne {v w : String} (h : v ≠ w) : Token.word v ≠ .word w := by
  rintro ⟨⟩
  exact h rfl

theorem refuses_functionDef (hK : Follower Ends K) (ht : t.Proper) (hne : t ≠ .word "function") :
    Refuses (Flush (t :: ts) K) (functionDef grammar) :=
  .bind (refuses_keyword hK ht rfl hne)

theorem readsPrimary_of_reads (h : ∀ l, t.Writes l → Grammar.Reads l e) : e.ReadsPrimary [t] := by
  intro K hK s hs
  obtain ⟨l, r, rfl, hl, hr⟩ := flush_cons.mp hs
  exact ⟨r, (h l hl).primary (hK r hr), hr⟩

theorem readsPrimary_keyword (hw : w ∈ ["true", "false", "null"])
    (he : ∀ {K}, Follower Ends K → Gives (Flush [.word w] K) constant e K) :
    e.ReadsPrimary [.word w] := by
  have hfront : ∀ w ∈ ["true", "false", "null"], isProper w = true ∧ w ≠ "function" ∧
      ∃ c cs, w.toList = c :: cs ∧ (c == '[') = false ∧ (c == '\x7b') = false ∧ (c == '(') = false := by
    intro w hw
    simp only [List.mem_cons, List.not_mem_nil, or_false] at hw
    rcases hw with rfl | rfl | rfl <;> exact ⟨by decide, by decide, _, _, rfl, rfl, rfl, rfl⟩
  obtain ⟨hproper, hne, c, cs, hlist, hsquare, hbrace, hround⟩ := hfront w hw
  intro K hK
  refine .right (.map (refuses_functionDef hK hproper (word_ne hne))) <|
    .right (.map (refuses_first (arrayItems_first grammar) (avoids_word hlist hsquare))) <|
    .right (.map (refuses_first (objectProperties_first grammar) (avoids_word hlist hbrace))) <|
    .right (.map (refuses_first (parenthesised_first grammar) (avoids_word hlist hround))) <|
    .left (he hK)

theorem readsPrimary_paren (h : e.ReadsWhole ts) :
    (paren e).ReadsPrimary (bracketed "(" ")" ts) := by
  intro K hK
  refine .right (.map (refuses_functionDef hK rfl (word_ne (by decide)))) <|
    .right (.map (refuses_first (arrayItems_first grammar) (avoids_word rfl rfl))) <|
    .right (.map (refuses_first (objectProperties_first grammar) (avoids_word rfl rfl))) <|
    .left (.map ((gives_char rfl).bind ?_))
  rw [spaced_append]
  exact (h.value (done_word rfl (by decide))).bind ((gives_mark rfl (by decide)).bind (.pure _))

theorem nothing_comma {c : Char} (hw : w.toList = [c]) (hproper : isProper w = true)
    (hc : (c == ',') = false) :
    Gives (Spaced (.word w :: us) K) (maybe comma) none (Spaced (.word w :: us) K) :=
  .nothing (refuses_mark (t := .word w) hproper (avoids_word hw hc))

theorem readsPrimary_array {items : List Expr} (h : List.Forall₂ ReadsWhole items tss) :
    (array items).ReadsPrimary (bracketed "[" "]" (separated tss)) := by
  intro K hK
  refine .right (.map (refuses_functionDef hK rfl (word_ne (by decide)))) <|
    .left (.map ((gives_char rfl).bind ?_))
  rw [spaced_append]
  exact (gives_items h rfl (by decide)).bind ((nothing_comma rfl (by decide) rfl).bind
    ((gives_mark rfl (by decide)).bind (.pure _)))

theorem readsItem_property (key : String) (h : e.ReadsWhole ts) :
    ReadsItem (property grammar) (key, e) (.string key :: .word ":" :: ts) := by
  intro K hK
  have hkey : Gives (Flush (.string key :: .word ":" :: ts) K) propertyKey key
      (Spaced (.word ":" :: ts) K) :=
    .right (refuses_first name_first (avoids_string rfl)) (gives_quoted key).left
  refine (gives_gap (t := .string key) trivial).bind (hkey.bind ?_)
  exact (gives_mark rfl (by decide)).bind ((h.value hK).bind (.pure _))

theorem readsPrimary_object {ps : List (String × Expr)}
    (h : List.Forall₂ (ReadsItem (property grammar)) ps tss) :
    (object ps).ReadsPrimary (bracketed "\x7b" "\x7d" (separated tss)) := by
  intro K hK
  have hnone : Refuses (Spaced [.word "\x7d"] K) (property grammar) := by
    refine (gives_gap (t := .word "\x7d") rfl).refuses (.bind ?_)
    exact .orElse (refuses_first name_first (avoids_word rfl rfl)) <|
      .orElse (refuses_first quoted_first (avoids_word rfl rfl))
        (.bind (refuses_first Number.Numeral.numeral_first (avoids_word rfl rfl)))
  refine .right (.map (refuses_functionDef hK rfl (word_ne (by decide)))) <|
    .right (.map (refuses_first (arrayItems_first grammar) (avoids_word rfl rfl))) <|
    .left (.map ((gives_char rfl).bind ?_))
  rw [spaced_append]
  have hlist := gives_sepBy (c := '\x7d') h (fun n => Same.tie.property (grammar_follow n)) rfl
    (by decide) hnone
  exact hlist.bind ((nothing_comma rfl (by decide) rfl).bind
    ((gives_mark rfl (by decide)).bind (.pure _)))

/-- Statements are read back in front of the end of a block or of the text, but for the gap there. -/
def ReadsStmts (body : List Stmt) (ts : List Token) : Prop :=
  ∀ ⦃K⦄, Follower Stop K → Gives (Spaced ts K) grammar.stmts body (UpToGap K)

theorem ReadsStmts.braced {α : Type} {f : List Stmt → Scan α} {a : α} {body : List Stmt}
    (h : ReadsStmts body ts) (hf : Gives K (f body) a K) :
    Gives (Spaced (ts ++ [.word "\x7d"]) K) (do let body ← grammar.stmts; mark '\x7d'; f body) a
      K := by
  have hstop : Follower Stop (Spaced [.word "\x7d"] K) := by
    rintro _ ⟨_, r, rfl, rfl, -⟩
    exact .inr ⟨r, rfl⟩
  have hmark : Gives (Spaced [.word "\x7d"] K) (mark '\x7d') () K := gives_mark rfl (by decide)
  rw [spaced_append]
  exact (h hstop).bind (hmark.behindGap.bind hf)

def Function.Reads (f : Function) (ts : List Token) : Prop :=
  ∀ ⦃K⦄, Follower Ends K → Gives (Flush ts K) (functionDef grammar) f K

theorem readsFunction {name : Option String} {params : List String} {body : List Stmt}
    (h : (Function.mk name params body).Shaped) (hbody : ReadsStmts body ts) :
    (Function.mk name params body).Reads (.word "function" :: (nameTokens name ++
      (bracketed "(" ")" (separated (params.map fun x => [.word x])) ++
        bracketed "\x7b" "\x7d" ts))) := by
  intro K hK
  have hname : Gives (Spaced (nameTokens name ++ (bracketed "(" ")"
        (separated (params.map fun x => [.word x])) ++ bracketed "\x7b" "\x7d" ts)) K)
      (maybe (do gap; identifier)) name (Spaced (bracketed "(" ")"
        (separated (params.map fun x => [.word x])) ++ bracketed "\x7b" "\x7d" ts) K) := by
    cases name with
    | none =>
        refine .nothing ((gives_gap (t := .word "(") rfl).refuses ?_)
        exact refuses_first identifier_first (avoids_word rfl rfl)
    | some x =>
        have hx := h.1 x rfl
        refine .maybe ((gives_gap (proper_of_isWord (isWord_of_isIdentifier hx))).bind ?_)
        exact gives_identifier hK hx
  have hparam (x : String) (hx : x ∈ params) : ReadsItem (do gap; identifier) x [.word x] := by
    intro K hK
    refine (gives_gap (proper_of_isWord (isWord_of_isIdentifier (h.2 x hx)))).bind ?_
    exact gives_identifier (fun k hk => (hK k hk).ends) (h.2 x hx)
  have hitems : List.Forall₂ (ReadsItem (do gap; identifier)) params
      (params.map fun x => [Token.word x]) :=
    List.forall₂_map_right_iff.mpr (List.forall₂_same.mpr hparam)
  have hnone {K : List Char → Prop} : Refuses (Spaced [.word ")"] K) (do gap; identifier) :=
    (gives_gap (t := .word ")") rfl).refuses (refuses_first identifier_first (avoids_word rfl rfl))
  have hparams := gives_sepBy (c := ')') hitems
    (fun n => Same.tie.behindGap n (Same.tie.identifier n)) rfl (by decide)
    (hnone (K := Spaced (bracketed "\x7b" "\x7d" ts) K))
  refine (gives_keyword hK "function").bind (hname.bind ?_)
  rw [spaced_append, bracketed]
  refine (gives_mark rfl (by decide)).bind ?_
  rw [spaced_append]
  refine hparams.bind ((gives_mark rfl (by decide)).bind ((gives_mark rfl (by decide)).bind ?_))
  exact hbody.braced (.pure _)

end SmallScript
