import SmallScript.Proofs.Printed.Ending
import SmallScript.Proofs.Printed.Expression

namespace SmallScript

open SmallScript.Expr Grammar Lexical Scan Token

variable {t term : Token} {next : Option Token} {ts us vs ws : List Token}
  {tss : List (List Token)} {K Q : List Char → Prop} {w : String}

/-- The statement is read from the tokens in front of `next`, and a part of the gap behind it may be
taken along. -/
def Stmt.Reads (t : Stmt) (next : Option Token) (ts : List Token) : Prop :=
  ∀ ⦃K⦄, Follower (Behind t next) K → Gives (Spaced ts K) grammar.stmt t (UpToGap K)

theorem word_ne_of_notMem {v : String} {ws : List String} (h : v ∉ ws) :
    ∀ w ∈ ws, Token.word v ≠ .word w := by
  rintro w hw ⟨⟩
  exact h hw

theorem gap_space {α : Type} (f : Unit → Scan α) (s : List Char) :
    (gap >>= f) (' ' :: s) = (gap >>= f) s := by
  show f () (skip true (' ' :: s)) = f () (skip true s)
  rw [skip_blank rfl]

theorem gives_flush {α : Type} {f : Unit → Scan α} {a : α} (h : Gives (Spaced ts K) (gap >>= f) a Q) :
    Gives (Flush ts K) (gap >>= f) a Q := by
  intro s hs
  rw [← gap_space]
  exact h _ hs

theorem refuses_flush {α : Type} {f : Unit → Scan α} (h : Refuses (Spaced ts K) (gap >>= f)) :
    Refuses (Flush ts K) (gap >>= f) := by
  intro s hs
  rw [← gap_space]
  exact h _ hs

theorem refuses_block (ht : t.Avoids (· == '\x7b')) : Refuses (Flush (t :: ts) K) (block grammar) :=
  refuses_first (block_first grammar) ht

theorem gives_block {body : List Stmt} (h : ReadsStmts body ts) :
    Gives (Flush (bracketed "\x7b" "\x7d" ts) K) (block grammar) body K :=
  (gives_char rfl).bind (h.braced (.pure _))

theorem gives_condition {e : Expr} (h : e.ReadsWhole ts) :
    Gives (Spaced (bracketed "(" ")" ts) K) (condition grammar) e K := by
  refine (gives_mark rfl (by decide)).bind ?_
  rw [spaced_append]
  exact (h.value (done_word rfl (by decide))).bind ((gives_mark rfl (by decide)).bind (.pure _))

section

variable (hK : Follower Ends K) (ht : t.Proper)

include hK ht

theorem refuses_compound (hbrace : t.Avoids (· == '\x7b')) (hne : ∀ w ∈ compoundWords, t ≠ .word w) :
    Refuses (Flush (t :: ts) K) (compound grammar) := by
  have hword : ∀ w ∈ compoundWords, isWord w = true := by decide
  have hkeyword {w : String} (hw : w ∈ compoundWords) : Refuses (Flush (t :: ts) K) (keyword w) :=
    refuses_keyword hK ht (hword w hw) (hne w hw)
  refine .orElse (.map (refuses_block hbrace)) <| .orElse (.bind (hkeyword (by decide))) <|
    .orElse (.bind (hkeyword (by decide))) <| .orElse (.bind (hkeyword (by decide))) <|
    .orElse (.bind (hkeyword (by decide))) (.bind (hkeyword (by decide)))

theorem refuses_declaration (hne : ∀ w ∈ declWords, t ≠ .word w) :
    Refuses (Flush (t :: ts) K) (declaration grammar) := by
  have hword : ∀ w ∈ declWords, isWord w = true := by decide
  have hkeyword {w : String} (hw : w ∈ declWords) : Refuses (Flush (t :: ts) K) (keyword w) :=
    refuses_keyword hK ht (hword w hw) (hne w hw)
  exact .bind <| .orElse (.bind (hkeyword (by decide))) <|
    .orElse (.bind (hkeyword (by decide))) (.bind (hkeyword (by decide)))

theorem refuses_jump (hne : ∀ w ∈ jumpWords, t ≠ .word w) :
    Refuses (Flush (t :: ts) K) (jump grammar) := by
  have hword : ∀ w ∈ jumpWords, isWord w = true := by decide
  have hkeyword {w : String} (hw : w ∈ jumpWords) : Refuses (Flush (t :: ts) K) (keyword w) :=
    refuses_keyword hK ht (hword w hw) (hne w hw)
  exact .orElse (.bind (hkeyword (by decide))) <| .orElse (.bind (hkeyword (by decide))) <|
    .orElse (.bind (hkeyword (by decide))) (.bind (hkeyword (by decide)))

omit hK in
theorem gives_compound {s : Stmt} (hsemicolon : t.Avoids (· == ';'))
    (h : Gives (Flush (t :: ts) K) (compound grammar) s Q) :
    Gives (Spaced (t :: ts) K) grammar.stmt s Q := by
  rw [grammar_stmt]
  exact (gives_gap ht).bind (.right (.bind (refuses_first (.char ';') hsemicolon)) h.left)

omit hK in
theorem gives_terminated {s : Stmt} (hsemicolon : t.Avoids (· == ';'))
    (hcompound : Refuses (Flush (t :: ts) K) (compound grammar))
    (hfunction : Refuses (Flush (t :: ts) K) (functionDecl grammar))
    (h : Gives (Flush (t :: ts) K)
      (declaration grammar <|> jump grammar <|> Stmt.expr <$> Grammar.expr grammar) s Q)
    (hend : Gives Q stmtEnd () (UpToGap K)) :
    Gives (Spaced (t :: ts) K) grammar.stmt s (UpToGap K) := by
  rw [grammar_stmt]
  refine (gives_gap ht).bind (.right (.bind (refuses_first (.char ';') hsemicolon)) ?_)
  exact .right hcompound (.right hfunction (h.bind (hend.bind (.pure s))))

end

theorem gives_jump {v : String} {s : Stmt} (hK : Follower Ends K) (hv : v ∈ jumpWords)
    (h : Gives (Flush (.word v :: ts) K) (jump grammar) s Q) (hend : Gives Q stmtEnd () (UpToGap K)) :
    Gives (Spaced (.word v :: ts) K) grammar.stmt s (UpToGap K) := by
  have hwords : ∀ v ∈ jumpWords, isWord v = true ∧ v ∉ compoundWords ∧ v ∉ declWords ∧
      v ≠ "function" := by decide
  obtain ⟨hword, hcompound, hdecl, hfunction⟩ := hwords v hv
  have hproper := proper_of_isWord hword
  have havoids {d : Char} (hd : isNameStart d = false) : (Token.word v).Avoids (· == d) :=
    avoids_name hword fun _ hc => beq_eq_false_of_class hc hd
  exact gives_terminated hproper (havoids rfl)
    (refuses_compound hK hproper (havoids rfl) (word_ne_of_notMem hcompound))
    (.bind (refuses_functionDef hK hproper (word_ne hfunction)))
    (.right (refuses_declaration hK hproper (word_ne_of_notMem hdecl)) h.left) hend

theorem readsItem_bare {x : String} (hx : IsIdentifier x) :
    ReadsItem (declarator grammar) (x, none) [.word x] := by
  intro K hK
  refine (gives_gap (proper_of_isWord (isWord_of_isIdentifier hx))).bind ?_
  refine (gives_identifier (fun k hk => (hK k hk).ends) hx).bind ?_
  have hnone : Refuses K (do mark '='; grammar.expr) := .bind fun k hk => (hK k hk).inert.equals
  exact (Gives.nothing hnone).bind (.pure _)

theorem readsItem_init {x : String} {e : Expr} (hx : IsIdentifier x) (h : e.ReadsWhole ts) :
    ReadsItem (declarator grammar) (x, some e) (.word x :: .word "=" :: ts) := by
  intro K hK
  refine (gives_gap (proper_of_isWord (isWord_of_isIdentifier hx))).bind ?_
  refine (gives_identifier (fun k hk => (hK k hk).ends) hx).bind ?_
  exact ((gives_mark rfl (by decide)).bind (h.value hK)).maybe.bind (.pure _)

theorem gives_declaration (kind : DeclKind) {ds : List (String × Option Expr)} (hne : ds ≠ [])
    (h : List.Forall₂ (ReadsItem (declarator grammar)) ds tss) (hdone : Follower Done K)
    (hcomma : Refuses K comma) :
    Gives (Flush (.word kind.keyword :: separated tss) K) (declaration grammar) (.decl kind ds) K := by
  have hkind {ts : List Token} {K : List Char → Prop} (hK : Follower Ends K) :
      Gives (Flush (.word kind.keyword :: ts) K) declKind kind (Spaced ts K) := by
    cases kind with
    | var => exact ((gives_keyword hK "var").bind (.pure DeclKind.var)).left
    | letDecl =>
        exact .right (.bind (refuses_keyword hK rfl rfl (word_ne (by decide))))
          ((gives_keyword hK "let").bind (.pure DeclKind.letDecl)).left
    | constDecl =>
        exact .right (.bind (refuses_keyword hK rfl rfl (word_ne (by decide)))) <|
          .right (.bind (refuses_keyword hK rfl rfl (word_ne (by decide))))
            ((gives_keyword hK "const").bind (.pure _))
  cases h with
  | nil => exact (hne rfl).elim
  | cons hd hds =>
      rw [separated]
      refine (hkind fun k hk => (hdone k hk).ends).bind ?_
      rw [spaced_append]
      exact (hd (done_rest hdone)).bind ((gives_rest hds
        (fun n => Same.tie.declarator (grammar_follow n)) hdone hcomma).bind (.pure _))

theorem gives_sameLine (ht : t.Proper) :
    Gives (Spaced (t :: ts) K) sameLine () (Flush (t :: ts) K) := by
  refine (gives_inlineGap ht).bind fun s hs => ⟨s, ?_, hs⟩
  refine notNext_eq_some_iff.mpr ⟨rfl, ?_⟩
  rintro c r rfl
  rw [← Bool.not_eq_true]
  intro hc
  -- a line end would be a gap
  have hskip : skip true (c :: r) = c :: r := flush_skip ht hs
  rw [skip_blank (isGapBlank_of_isLineEnd hc)] at hskip
  have hlength : (skip true r).length ≤ r.length := (skip_suffix r).length_le
  rw [hskip, List.length_cons] at hlength
  omega

theorem Expr.ReadsWhole.flush {e : Expr} (h : e.ReadsWhole ts) (hK : Follower Done K) :
    Gives (Flush ts K) grammar.expr e K := by
  rw [grammar_expr]
  exact gives_flush (h hK)

namespace Stmt

variable {e : Expr} {body t f : Stmt}

theorem reads_decl {kind : DeclKind} {ds : List (String × Option Expr)} (hne : ds ≠ [])
    (h : List.Forall₂ (ReadsItem (declarator grammar)) ds tss) (hend : Terminates next term) :
    (decl kind ds).Reads next (.word kind.keyword :: (separated tss ++ [term])) := by
  intro K hK
  have hproper : (Token.word kind.keyword).Proper := by cases kind <;> rfl
  have hends := ends_of_behind hK
  have hterm := ending_term hend hK
  have hwords : kind.keyword ∉ compoundWords ∧ kind.keyword ≠ "function" ∧
      (∃ c cs, kind.keyword.toList = c :: cs ∧ (c == ';') = false ∧ (c == '\x7b') = false) := by
    cases kind <;> exact ⟨by decide, by decide, _, _, rfl, rfl, rfl⟩
  obtain ⟨hcompound, hfunction, c, cs, hlist, hsemicolon, hbrace⟩ := hwords
  refine gives_terminated hproper (avoids_word hlist hsemicolon)
    (refuses_compound hends hproper (avoids_word hlist hbrace) (word_ne_of_notMem hcompound))
    (.bind (refuses_functionDef hends hproper (word_ne hfunction))) (.left ?_)
    (gives_stmtEnd hend hK)
  rw [← List.cons_append, flush_append]
  exact gives_declaration kind hne h (fun k hk => (hterm k hk).done) fun k hk => (hterm k hk).comma

theorem reads_block {body : List Stmt} (h : ReadsStmts body ts) :
    (block body).Reads next (bracketed "\x7b" "\x7d" ts) := by
  intro K hK
  have hproper : (Token.word "\x7b").Proper := rfl
  have hblock : Gives (Spaced (bracketed "\x7b" "\x7d" ts) K) grammar.stmt (.block body) K :=
    gives_compound hproper (avoids_word rfl rfl) (.left (.map (gives_block h)))
  exact hblock.imp fun _ => upToGap

theorem reads_empty : empty.Reads next [.word ";"] := by
  intro K hK
  have hempty : Gives (Spaced [.word ";"] K) grammar.stmt .empty K := by
    rw [grammar_stmt]
    exact (gives_gap (t := .word ";") rfl).bind ((gives_char rfl).bind (.pure Stmt.empty)).left
  exact hempty.imp fun _ => upToGap

theorem reads_function {f : Function} (hname : f.name.isSome = true) (hspelled : f.Spelled ts)
    (h : f.Reads ts) : (function f).Reads next ts := by
  intro K hK
  have hends := ends_of_behind hK
  have hfunction : Gives (Flush ts K) (functionDecl grammar) (.function f) (UpToGap K) := by
    refine ((h hends).imp fun _ => upToGap).bind ?_
    cases hf : f.name with
    | none =>
        rw [hf] at hname
        cases hname
    | some x => exact .pure _
  cases hspelled
  rw [grammar_stmt]
  have hproper : (Token.word "function").Proper := rfl
  refine (gives_gap hproper).bind (.right (.bind (refuses_first (.char ';') (avoids_word rfl rfl))) ?_)
  exact .right (refuses_compound hends hproper (avoids_word rfl rfl) (word_ne_of_notMem (by decide)))
    hfunction.left

theorem reads_whileLoop (he : e.ReadsWhole ts) (hbody : body.Reads next us) :
    (whileLoop e body).Reads next (.word "while" :: (bracketed "(" ")" ts ++ us)) := by
  intro K hK
  have hends := ends_of_behind hK
  have hproper : (Token.word "while").Proper := rfl
  refine gives_compound hproper (avoids_word rfl rfl) <|
    .right (.map (refuses_block (avoids_word rfl rfl))) <|
    .right (.bind (refuses_keyword hends hproper rfl (word_ne (by decide)))) <|
    .left ((gives_keyword hends "while").bind ?_)
  rw [spaced_append]
  refine (gives_condition he).bind ((hbody fun k hk => ?_).bind (.pure _))
  have h := hK k hk
  exact { h with branch := h.branch }

theorem reads_ifThen (he : e.ReadsWhole ts) (ht : t.Reads next us) :
    (ifElse e t none).Reads next (.word "if" :: (bracketed "(" ")" ts ++ us)) := by
  intro K hK
  have hends := ends_of_behind hK
  have hproper : (Token.word "if").Proper := rfl
  refine gives_compound hproper (avoids_word rfl rfl) <|
    .right (.map (refuses_block (avoids_word rfl rfl))) <|
    .left ((gives_keyword hends "if").bind ?_)
  rw [spaced_append]
  have hnone : Refuses K (do gap; keyword "else"; grammar.stmt) := by
    intro k hk
    have helse : keyword "else" (skipGap k) = none := (hK k hk).branch rfl
    show (keyword "else" >>= fun _ => grammar.stmt) (skipGap k) = none
    exact bind_of_none helse
  refine (gives_condition he).bind ((ht fun k hk => ?_).bind ?_)
  · have h := hK k hk
    exact { h with branch := fun _ => h.branch rfl }
  · exact (Gives.nothing hnone.behindGap).bind (.pure _)

theorem reads_ifElse (he : e.ReadsWhole ts) (hclosed : t.isOpen = false)
    (ht : t.Reads (some (.word "else")) us) (hf : f.Reads next vs) :
    (ifElse e t (some f)).Reads next
      (.word "if" :: (bracketed "(" ")" ts ++ (us ++ .word "else" :: vs))) := by
  intro K hK
  have hends := ends_of_behind hK
  have hproper : (Token.word "if").Proper := rfl
  refine gives_compound hproper (avoids_word rfl rfl) <|
    .right (.map (refuses_block (avoids_word rfl rfl))) <|
    .left ((gives_keyword hends "if").bind ?_)
  rw [spaced_append]
  refine (gives_condition he).bind ?_
  rw [spaced_append]
  have helse : Gives (Spaced (.word "else" :: vs) K) (do gap; keyword "else"; grammar.stmt) f
      (UpToGap K) := by
    refine (gives_gap (t := .word "else") rfl).bind ((gives_keyword hends "else").bind ?_)
    refine hf fun k hk => ?_
    have h := hK k hk
    exact { h with branch := h.branch }
  have hhead : (Token.word "else").IsHead := .inr (by decide)
  have hbehind : Follower (Behind t (some (.word "else"))) (Spaced (.word "else" :: vs) K) :=
    behind_head hhead (fun k hk => (hK k hk).apart) fun hopen =>
      (Bool.false_ne_true (hclosed.symm.trans hopen)).elim
  exact (ht hbehind).bind (helse.behindGap.maybe.bind (.pure _))

theorem reads_doWhile (hbody : body.Reads (some (.word "while")) ts) (he : e.ReadsWhole us)
    (hend : Terminates next term) : (doWhile body e).Reads next
      (.word "do" :: (ts ++ .word "while" :: (bracketed "(" ")" us ++ [term]))) := by
  intro K hK
  have hends := ends_of_behind hK
  have hproper : (Token.word "do").Proper := rfl
  have hwhile : (Token.word "while").Proper := rfl
  refine gives_compound hproper (avoids_word rfl rfl) <|
    .right (.map (refuses_block (avoids_word rfl rfl))) <|
    .right (.bind (refuses_keyword hends hproper rfl (word_ne (by decide)))) <|
    .right (.bind (refuses_keyword hends hproper rfl (word_ne (by decide)))) <|
    .left ((gives_keyword hends "do").bind ?_)
  rw [spaced_append]
  have hhead : (Token.word "while").IsHead := .inr (by decide)
  have hbehind : Follower (Behind body (some (.word "while")))
      (Spaced (.word "while" :: (bracketed "(" ")" us ++ [term])) K) :=
    behind_head hhead (fun k hk => (hK k hk).apart) fun _ => word_ne (by decide)
  obtain ⟨o, hoptional⟩ := gives_optionalEnd hend hK
  have htest : Gives (Spaced (.word "while" :: (bracketed "(" ")" us ++ [term])) K)
      (do gap
          keyword "while"
          let test ← condition grammar
          let _ ← maybe (do inlineGap; char ';')
          return Stmt.doWhile body test) (doWhile body e) (UpToGap K) := by
    refine (gives_gap hwhile).bind ((gives_keyword hends "while").bind ?_)
    rw [spaced_append]
    exact (gives_condition he).bind (hoptional.bind (.pure _))
  exact (hbody hbehind).bind htest.behindGap

theorem reads_breakLoop (hend : Terminates next term) :
    breakLoop.Reads next [.word "break", term] := by
  intro K hK
  have hends := ends_of_behind hK
  exact gives_jump hends (by decide) ((gives_keyword hends "break").bind (.pure Stmt.breakLoop)).left
    (gives_stmtEnd hend hK)

theorem reads_continueLoop (hend : Terminates next term) :
    continueLoop.Reads next [.word "continue", term] := by
  intro K hK
  have hends := ends_of_behind hK
  refine gives_jump hends (by decide) ?_ (gives_stmtEnd hend hK)
  exact .right (.bind (refuses_keyword hends rfl rfl (word_ne (by decide))))
    ((gives_keyword hends "continue").bind (.pure Stmt.continueLoop)).left

theorem gives_sameLine_starts {n : Nat} (h : Starts n ts) :
    Gives (Spaced ts K) sameLine () (Flush ts K) := by
  obtain ⟨t, us, rfl, ht⟩ := h.proper
  exact gives_sameLine ht

inductive ReadsOption : Option Expr → List Token → Prop where
  | none : ReadsOption none []
  | some {n : Nat} {e : Expr} {ts : List Token} (h : e.ReadsWhole ts) (hstarts : Starts n ts) :
      ReadsOption (some e) ts

theorem reads_returnValue {o : Option Expr} (h : ReadsOption o ts) (hend : Terminates next term) :
    (returnValue o).Reads next (.word "return" :: (ts ++ [term])) := by
  intro K hK
  have hends := ends_of_behind hK
  have hterm := ending_term hend hK
  have hoperand : Gives (Spaced (ts ++ [term]) K) (maybe (do sameLine; grammar.expr)) o
      (Spaced [term] K) := by
    cases h with
    | none => exact .nothing fun k hk => (hterm k hk).operand
    | some h hstarts =>
        rw [spaced_append]
        exact ((gives_sameLine_starts hstarts).bind (h.flush fun k hk => (hterm k hk).done)).maybe
  refine gives_jump hends (by decide) ?_ (gives_stmtEnd hend hK)
  exact .right (.bind (refuses_keyword hends rfl rfl (word_ne (by decide)))) <|
    .right (.bind (refuses_keyword hends rfl rfl (word_ne (by decide))))
      ((gives_keyword hends "return").bind (hoperand.bind (.pure (Stmt.returnValue o)))).left

theorem reads_throw {n : Nat} (he : e.ReadsWhole ts) (hstarts : Starts n ts)
    (hend : Terminates next term) : (throw e).Reads next (.word "throw" :: (ts ++ [term])) := by
  intro K hK
  have hends := ends_of_behind hK
  have hterm := ending_term hend hK
  refine gives_jump hends (by decide) ?_ (gives_stmtEnd hend hK)
  refine .right (.bind (refuses_keyword hends rfl rfl (word_ne (by decide)))) <|
    .right (.bind (refuses_keyword hends rfl rfl (word_ne (by decide)))) <|
    .right (.bind (refuses_keyword hends rfl rfl (word_ne (by decide))))
      ((gives_keyword hends "throw").bind ?_)
  rw [spaced_append]
  exact (gives_sameLine_starts hstarts).bind ((he.flush fun k hk => (hterm k hk).done).bind (.pure _))

inductive ReadsHandler : Option (String × List Stmt) → List Token → Prop where
  | none : ReadsHandler none []
  | some {x : String} {body : List Stmt} {ts : List Token} (hx : IsIdentifier x)
      (h : ReadsStmts body ts) : ReadsHandler (some (x, body))
        (.word "catch" :: (bracketed "(" ")" [.word x] ++ bracketed "\x7b" "\x7d" ts))

inductive ReadsFinalizer : Option (List Stmt) → List Token → Prop where
  | none : ReadsFinalizer none []
  | some {body : List Stmt} {ts : List Token} (h : ReadsStmts body ts) :
      ReadsFinalizer (some body) (.word "finally" :: bracketed "\x7b" "\x7d" ts)

theorem gives_finally {s : Stmt} {finalizer : Option (List Stmt)} (h : ReadsFinalizer finalizer ts)
    (hK : Follower (Behind s next) K) :
    Gives (Spaced ts K) (maybe (finallyClause grammar)) finalizer K := by
  cases h with
  | none =>
      refine .nothing fun k hk => ?_
      have hclause : keyword "finally" (skipGap k) = none := (hK k hk).clause "finally" (by decide)
      show (keyword "finally" >>= fun _ => gap >>= fun _ => Grammar.block grammar) (skipGap k) = none
      exact bind_of_none hclause
  | some h =>
      refine .maybe ((gives_gap (t := .word "finally") rfl).bind ?_)
      refine (gives_keyword (ends_of_behind hK) "finally").bind ?_
      exact (gives_gap (t := .word "\x7b") rfl).bind (gives_block h)

theorem gives_catch {handler : Option (String × List Stmt)} {finalizer : Option (List Stmt)}
    (hone : handler.isSome = true ∨ finalizer.isSome = true) (hhandler : ReadsHandler handler ts)
    (hfinalizer : ReadsFinalizer finalizer us) (hK : Follower Ends K) :
    Gives (Spaced (ts ++ us) K) (maybe (catchClause grammar)) handler (Spaced us K) := by
  cases hhandler with
  | none =>
      cases hfinalizer with
      | none => simp at hone
      | some =>
          refine .nothing ((gives_gap (t := .word "finally") rfl).refuses (.bind ?_))
          exact refuses_keyword hK rfl rfl (word_ne (by decide))
  | some hx h =>
      rw [List.cons_append]
      refine .maybe ((gives_gap (t := .word "catch") rfl).bind ((gives_keyword hK "catch").bind ?_))
      rw [List.append_assoc, bracketed]
      refine (gives_mark rfl (by decide)).bind ?_
      refine (gives_gap (proper_of_isWord (isWord_of_isIdentifier hx))).bind ?_
      refine (gives_identifier hK hx).bind ((gives_mark rfl (by decide)).bind ?_)
      refine (gives_gap (t := .word "\x7b") rfl).bind ?_
      have hblock := gives_block (K := Spaced us K) h
      rw [← flush_append] at hblock
      exact hblock.bind (.pure _)

theorem reads_tryCatch {body : List Stmt} {handler : Option (String × List Stmt)}
    {finalizer : Option (List Stmt)} (hone : handler.isSome = true ∨ finalizer.isSome = true)
    (hbody : ReadsStmts body ts) (hhandler : ReadsHandler handler us)
    (hfinalizer : ReadsFinalizer finalizer vs) : (tryCatch body handler finalizer).Reads next
      (.word "try" :: (bracketed "\x7b" "\x7d" ts ++ (us ++ vs))) := by
  intro K hK
  have hends := ends_of_behind hK
  have hproper : (Token.word "try").Proper := rfl
  have htry : Gives (Flush (.word "try" :: (bracketed "\x7b" "\x7d" ts ++ (us ++ vs))) K)
      (tryStmt grammar) (.tryCatch body handler finalizer) (UpToGap K) := by
    refine (gives_keyword hends "try").bind ?_
    rw [spaced_append]
    refine (gives_gap (t := .word "\x7b") rfl).bind ((gives_block hbody).bind ?_)
    refine (gives_catch hone hhandler hfinalizer hends).bind ((gives_finally hfinalizer hK).bind ?_)
    cases handler with
    | some c => exact (Gives.pure _).imp fun _ => upToGap
    | none =>
        cases finalizer with
        | some ts => exact (Gives.pure _).imp fun _ => upToGap
        | none => simp at hone
  exact gives_compound hproper (avoids_word rfl rfl) <|
    .right (.map (refuses_block (avoids_word rfl rfl))) <|
    .right (.bind (refuses_keyword hends rfl rfl (word_ne (by decide)))) <|
    .right (.bind (refuses_keyword hends rfl rfl (word_ne (by decide)))) <|
    .right (.bind (refuses_keyword hends rfl rfl (word_ne (by decide)))) <|
    .right (.bind (refuses_keyword hends rfl rfl (word_ne (by decide)))) htry

theorem gives_optional {o : Option Expr} (h : ReadsOption o ts) {c : Char} (hw : w.toList = [c])
    (hc : c ∈ closers) :
    Gives (Spaced ts (Spaced (.word w :: us) K)) (maybe grammar.expr) o (Spaced (.word w :: us) K) := by
  cases h with
  | none =>
      rw [grammar_expr]
      exact .nothing (refuses_expr hw hc)
  | some h => exact (h.value (done_word hw hc)).maybe

inductive ReadsInit : Option Stmt → List Token → Prop where
  | none : ReadsInit none []
  | decl (kind : DeclKind) {ds : List (String × Option Expr)} {tss : List (List Token)}
      (hne : ds ≠ []) (h : List.Forall₂ (ReadsItem (declarator grammar)) ds tss) :
      ReadsInit (some (.decl kind ds)) (.word kind.keyword :: separated tss)
  | expr {n : Nat} {e : Expr} {ts : List Token} (h : e.ReadsWhole ts) (hstarts : Starts n ts) :
      ReadsInit (some (.expr e)) ts

theorem gives_init {init : Option Stmt} (h : ReadsInit init ts) (hK : Follower Ends K) {α : Type}
    {p : Option Stmt → Scan α} {a : α} (hp : Gives (Spaced us K) (p init) a Q) :
    Gives (Spaced (ts ++ .word ";" :: us) K)
      (do gap; let t ← maybe (forInit grammar); mark ';'; p t) a Q := by
  have hdone : Follower Done (Spaced (.word ";" :: us) K) := done_word rfl (by decide)
  have hmark : Gives (Spaced (.word ";" :: us) K) (mark ';') () (Spaced us K) :=
    gives_mark rfl (by decide)
  cases h with
  | none =>
      have hrefuses : Refuses (Flush (.word ";" :: us) K) (forInit grammar) := by
        refine .orElse (refuses_declaration hK rfl (word_ne_of_notMem (by decide))) (.map ?_)
        rw [grammar_expr]
        exact refuses_flush (refuses_expr rfl (by decide))
      refine (gives_gap (t := .word ";") rfl).bind ((Gives.nothing hrefuses).bind ?_)
      exact (gives_flush hmark).bind hp
  | decl kind hne h =>
      have hproper : (Token.word kind.keyword).Proper := by cases kind <;> rfl
      have hcomma : Refuses (Spaced (.word ";" :: us) K) comma :=
        refuses_mark (t := .word ";") rfl (avoids_word rfl rfl)
      have hdeclaration := gives_declaration kind hne h hdone hcomma
      rw [← flush_append] at hdeclaration
      exact (gives_gap hproper).bind (Gives.bind (.maybe (.left hdeclaration)) (hmark.bind hp))
  | expr h hstarts =>
      have hflush := h.flush hdone
      rw [← flush_append] at hflush
      have hgap := gives_gap_starts (K := K) (hstarts.append (Nat.le_refl _) (.word ";" :: us))
      refine hgap.bind (Gives.bind (.maybe (.right ?_ (.map hflush))) (hmark.bind hp))
      have hreserved : ∀ w ∈ declWords, w ∈ reservedWords ∧ w ∉ primaryWords ++ prefixWords := by
        decide
      obtain ⟨t, ts, rfl, ht⟩ := hstarts.proper
      exact refuses_declaration hK ht fun w hw => hstarts.ne (hreserved w hw).1 (hreserved w hw).2

theorem reads_forLoop {init : Option Stmt} {test update : Option Expr} (hinit : ReadsInit init ts)
    (htest : ReadsOption test us) (hupdate : ReadsOption update vs) (hbody : body.Reads next ws) :
    (forLoop init test update body).Reads next (.word "for" ::
      (bracketed "(" ")" (ts ++ .word ";" :: (us ++ .word ";" :: vs)) ++ ws)) := by
  intro K hK
  have hends := ends_of_behind hK
  have hproper : (Token.word "for").Proper := rfl
  refine gives_compound hproper (avoids_word rfl rfl) <|
    .right (.map (refuses_block (avoids_word rfl rfl))) <|
    .right (.bind (refuses_keyword hends rfl rfl (word_ne (by decide)))) <|
    .right (.bind (refuses_keyword hends rfl rfl (word_ne (by decide)))) <|
    .right (.bind (refuses_keyword hends rfl rfl (word_ne (by decide)))) <|
    .left ((gives_keyword hends "for").bind ?_)
  rw [bracketed, List.cons_append]
  refine (gives_mark rfl (by decide)).bind ?_
  rw [List.append_assoc, List.append_assoc, List.cons_append, List.append_assoc, List.cons_append]
  refine gives_init hinit hends ?_
  rw [spaced_append]
  refine (gives_optional htest rfl (by decide)).bind ((gives_mark rfl (by decide)).bind ?_)
  rw [spaced_append]
  refine (gives_optional hupdate rfl (by decide)).bind ((gives_mark rfl (by decide)).bind ?_)
  refine (hbody fun k hk => ?_).bind (.pure _)
  have h := hK k hk
  exact { h with branch := h.branch }

end Stmt

end SmallScript
