import SmallScript.Proofs.Grammar.Reserved
import SmallScript.Proofs.Printed.Statement

namespace SmallScript

open SmallScript.Expr Grammar Lexical Scan Stmt Token

variable {t term : Token} {next : Option Token} {ts us : List Token} {tss : List (List Token)}
  {K : List Char → Prop} {e : Expr}

def plainWords : List String := ["true", "false", "null", "(", "[", "new"] ++ prefixWords

def Token.IsPlain : Token → Prop
  | word w => IsIdentifier w ∨ w ∈ plainWords
  | number _ | string _ => True

namespace Token.IsPlain

theorem proper (h : t.IsPlain) : t.Proper := by
  cases t with
  | number | string => exact trivial
  | word w =>
      rcases h with h | h
      · exact proper_of_isWord (isWord_of_isIdentifier h)
      · have hall : ∀ w ∈ plainWords, isProper w = true := by decide
        exact hall w h

theorem ne (h : t.IsPlain) {w : String} (hw : w ∈ reservedWords) (hne : w ∉ plainWords) :
    t ≠ word w := by
  rintro rfl
  rcases h with h | h
  · exact ne_of_isIdentifier h hw rfl
  · exact hne h

theorem avoids (h : t.IsPlain) {d : Char} (hd : d ∈ [';', '\x7b']) : t.Avoids (· == d) := by
  have hclass : ∀ d ∈ [';', '\x7b'], isNameStart d = false ∧ (isDigit d || d == '.') = false ∧
      ('"' == d) = false ∧ ∀ w ∈ plainWords, w.toList.head?.any (· != d) = true :=
    List.all_iff_forall_prop.mp (by decide)
  obtain ⟨hname, hdigit, hquote, hwords⟩ := hclass d hd
  cases t with
  | number x => exact avoids_number fun c hc =>
      beq_eq_false_of_class (F := fun c => isDigit c || c == '.') hc hdigit
  | string v => exact avoids_string hquote
  | word w =>
      rcases h with h | h
      · exact avoids_name (isWord_of_isIdentifier h) fun _ hc => beq_eq_false_of_class hc hname
      · have hhead := hwords w h
        cases hw : w.toList with
        | nil =>
            rw [hw] at hhead
            cases hhead
        | cons c cs =>
            rw [hw] at hhead
            exact avoids_word hw (by simpa using hhead)

end Token.IsPlain

/-- What the tokens of an expression start with, by the expression that is read first. -/
inductive Opens (e : Expr) : List Token → Prop where
  | plain {t : Token} {ts : List Token} (ht : t.IsPlain) : Opens e (t :: ts)
  | object (key : String) (ts : List Token) :
      Opens e (.word "\x7b" :: .string key :: .word ":" :: ts)
  | empty (h : e = .object []) (ts : List Token) : Opens e ts
  | function (f : Function) (h : e = .function f) {us : List Token} (hspelled : f.Spelled us)
      (ts : List Token) : Opens e (us ++ ts)

theorem Opens.append (h : Opens e ts) (us : List Token) : Opens e (ts ++ us) := by
  cases h with
  | plain ht => exact .plain ht
  | object key ts => exact .object key (ts ++ us)
  | empty h => exact .empty h _
  | function f h hspelled ts =>
      rw [List.append_assoc]
      exact .function f h hspelled _

theorem opens_word {w : String} (hw : w ∈ plainWords) : Opens e (.word w :: ts) := .plain (.inr hw)

theorem Expr.opens : (e : Expr) → e.Every .shape → {ts : List Token} → e.Spelled ts →
    Opens e.lead ts
  | .ident x, h, _, .ident _ => .plain (.inl h)
  | .number x, _, _, .number _ => .plain trivial
  | .bool b, _, _, .bool _ => opens_word (by cases b <;> decide)
  | .null, _, _, .null => opens_word (by decide)
  | .string v, _, _, .string _ => .plain trivial
  | .paren e, _, _, .paren _ => opens_word (by decide)
  | .array items, _, _, .array _ => opens_word (by decide)
  | .object [], _, _, _ => .empty rfl _
  | .object ((key, e) :: ps), _, _, .object hps => by
      cases hps
      exact .object key _
  | .function f, _, ts, .function hf => by
      have h := Opens.function (e := .function f) f rfl hf []
      rwa [List.append_nil] at h
  | .new e args, _, _, .new _ _ => opens_word (by decide)
  | .field e x, h, _, .field he _ => (e.opens h.2 he).append _
  | .index e k, h, _, .index he _ => (e.opens h.2.1 he).append _
  | .call e args, h, _, .call he _ => (e.opens h.2.1 he).append _
  | .binary op l r, h, _, .binary _ hl _ => (l.opens h.2.1 hl).append _
  | .assign op l r, h, _, .assign _ hl _ => (l.opens h.2.1 hl).append _
  | .cond c t f, h, _, .cond hc _ _ => (c.opens h.2.1 hc).append _
  | .unary op e, _, _, .unary _ _ => opens_word (by cases op <;> decide)
  | .update .preIncrement e, _, _, .preIncrement _ => opens_word (by decide)
  | .update .preDecrement e, _, _, .preDecrement _ => opens_word (by decide)
  | .update .postIncrement e, h, _, .postIncrement he => (e.opens h.2 he).append _
  | .update .postDecrement e, h, _, .postDecrement he => (e.opens h.2 he).append _

theorem refuses_stmt (hK : Follower Stop K) : Refuses K (stmt grammar) := by
  intro k hk
  have hfront : ∀ c r, skipGap k = c :: r → c = '\x7d' := fun _ _ hc => stop_front (hK k hk) hc
  have hexpr : Grammar.expr grammar (skipGap k) = none := by
    show assignment grammar (skip true (skip true k)) = none
    rw [skip_skip]
    refine (assignment_first grammar).fails fun c r hr => ?_
    rw [hfront c r hr]
    rfl
  rw [← stmt_skipGap, stmt_eq_terminated (unreserved_stop (hK k hk)) (skip_skip k),
    bind_of_none (map_of_none hexpr)]
  intro c r hr
  rw [hfront c r hr]
  exact ⟨rfl, rfl⟩

def Heads (ts : List Token) : Prop := ∃ t us, ts = t :: us ∧ t.IsHead ∧ t ≠ .word "else"

theorem heads_word {w : String} (hw : w ∈ headWords) (hne : w ≠ "else") : Heads (.word w :: ts) :=
  ⟨_, _, rfl, .inr hw, word_ne hne⟩

theorem Stmt.heads {t : Stmt} (h : t.Every .shape) (hspelled : t.Spelled next ts) : Heads ts := by
  cases hspelled with
  | @expr _ _ e us he hend =>
      obtain ⟨t, vs, rfl, ht⟩ := e.starts h.2.2 he
      have hne : t ≠ .word "else" := Starts.ne ⟨t, vs, rfl, ht⟩ (by decide) (by decide)
      exact ⟨t, _, rfl, ht.elim IsPrimary.head fun h => h.2.head, hne⟩
  | function hf =>
      cases hf
      exact heads_word (by decide) (by decide)
  | decl kind _ _ => exact heads_word (by cases kind <;> decide) (by cases kind <;> decide)
  | _ => exact heads_word (by decide) (by decide)

theorem heads_stmts {body : List Stmt} (h : everyStmt .shape body)
    (hspelled : SpelledStmts body next ts) : ts = [] ∨ Heads ts := by
  cases hspelled with
  | nil => exact .inl rfl
  | cons ht _ =>
      obtain ⟨t, us, rfl, hhead⟩ := Stmt.heads h.1 ht
      exact .inr ⟨t, _, rfl, hhead⟩

theorem readsStmts_nil : ReadsStmts [] [] := by
  intro K hK
  rw [grammar_stmts]
  exact (Gives.done (refuses_stmt hK)).imp fun _ => upToGap

theorem readsStmts_cons {t : Stmt} {rest : List Stmt} (ht : t.Reads (us.head?.or next) ts)
    (hheads : us = [] ∨ Heads us) (hrest : ReadsStmts rest us) : ReadsStmts (t :: rest) (ts ++ us) := by
  intro K hK
  have hbehind : Follower (Behind t (us.head?.or next)) (Spaced us K) := by
    rcases hheads with rfl | ⟨tok, vs, rfl, hhead, hne⟩
    · exact fun k hk => behind_stop (hK k hk)
    · exact behind_head hhead (fun k hk => apart_stop (hK k hk)) fun _ => hne
  have hread := ht hbehind
  have hmany := hrest hK
  rw [grammar_stmt] at hread
  rw [grammar_stmts] at hmany ⊢
  rw [spaced_append]
  exact .many stmt_takes hread hmany.manyBehindGap

theorem refuses_stmtEnd : Refuses (Spaced (.word ":" :: us) K) stmtEnd := by
  have hproper : (Token.word ":").Proper := rfl
  have hbreak : Refuses (Flush (.word ":" :: us) K) (atLineEnd <|> blockComment) := by
    refine .orElse (refuses_first (.bind .satisfy) (avoids_word rfl rfl)) fun s hs => ?_
    obtain ⟨_, r, rfl, rfl, -⟩ := flush_cons.mp hs
    rfl
  have hbrace : Refuses (Flush (.word ":" :: us) K) beforeBrace := fun s hs => by
    obtain ⟨_, r, rfl, rfl, -⟩ := flush_cons.mp hs
    rfl
  have hend : Refuses (Flush (.word ":" :: us) K) endOfText := fun s hs => by
    obtain ⟨_, r, rfl, rfl, -⟩ := flush_cons.mp hs
    rfl
  exact .orElse ((gives_inlineGap hproper).refuses (refuses_first (.char ';') (avoids_word rfl rfl))) <|
    .orElse ((gives_inlineGap hproper).refuses hbreak) <|
    .orElse ((gives_gap hproper).refuses hbrace) ((gives_gap hproper).refuses hend)

theorem refuses_key (hK : Follower Ends K) (key : String) :
    Refuses (Spaced (.string key :: .word ":" :: us) K) (stmt grammar) := by
  have hproper : (Token.string key).Proper := trivial
  have hne {w : String} : Token.string key ≠ .word w := nofun
  have hexpr : Gives (Flush (.string key :: .word ":" :: us) K)
      (declaration grammar <|> jump grammar <|> Stmt.expr <$> Grammar.expr grammar)
      (.expr (.string key)) (Spaced (.word ":" :: us) K) := by
    refine .right (refuses_declaration hK hproper fun _ _ => hne) <|
      .right (refuses_jump hK hproper fun _ _ => hne) (.map ?_)
    have hdone : Follower Done (Spaced (.word ":" :: us) K) := done_word rfl (by decide)
    exact gives_flush ((ReadBack.string (v := key)).whole hdone)
  refine (gives_gap hproper).refuses <|
    .orElse (.bind (refuses_first (.char ';') (avoids_string rfl))) <|
    .orElse (refuses_compound hK hproper (avoids_string rfl) fun _ _ => hne) <|
    .orElse (.bind (refuses_functionDef hK hproper hne)) (hexpr.refuses (.bind refuses_stmtEnd))

/-- Braces around properties are no block. -/
theorem refuses_properties (hK : Follower Ends K) (key : String) :
    Refuses (Flush (.word "\x7b" :: .string key :: .word ":" :: us) K) (block grammar) := by
  have hstmts : Gives (Spaced (.string key :: .word ":" :: us) K) grammar.stmts []
      (Spaced (.string key :: .word ":" :: us) K) := by
    rw [grammar_stmts]
    exact .done (refuses_key hK key)
  refine (gives_char rfl).refuses (hstmts.refuses (.bind ?_))
  exact refuses_mark (t := .string key) trivial (avoids_string rfl)

theorem refuses_object (hK : Follower Ends K) (key : String) :
    Refuses (Flush (.word "\x7b" :: .string key :: .word ":" :: us) K) (compound grammar) := by
  have hkeyword {w : String} (hw : isWord w = true) (hne : "\x7b" ≠ w) :
      Refuses (Flush (.word "\x7b" :: .string key :: .word ":" :: us) K) (keyword w) :=
    refuses_keyword hK rfl hw (word_ne hne)
  exact .orElse (.map (refuses_properties hK key)) <|
    .orElse (.bind (hkeyword rfl (by decide))) <| .orElse (.bind (hkeyword rfl (by decide))) <|
    .orElse (.bind (hkeyword rfl (by decide))) <| .orElse (.bind (hkeyword rfl (by decide)))
      (.bind (hkeyword rfl (by decide)))

theorem gives_expr {s : Stmt} {Q : List Char → Prop} (hK : Follower Ends K) (ht : t.Proper)
    (hsemicolon : t.Avoids (· == ';')) (hcompound : Refuses (Flush (t :: ts) K) (compound grammar))
    (hfunction : Refuses (Flush (t :: ts) K) (functionDecl grammar))
    (hne : ∀ w ∈ declWords ++ jumpWords, t ≠ .word w)
    (h : Gives (Flush (t :: ts) K) (Stmt.expr <$> Grammar.expr grammar) s Q)
    (hend : Gives Q stmtEnd () (UpToGap K)) :
    Gives (Spaced (t :: ts) K) grammar.stmt s (UpToGap K) := by
  obtain ⟨hdecl, hjump⟩ := List.forall_mem_append.mp hne
  exact gives_terminated ht hsemicolon hcompound hfunction
    (.right (refuses_declaration hK ht hdecl) (.right (refuses_jump hK ht hjump) h)) hend

theorem reads_expr (h : e.ReadBack ts) (hevery : e.Every .shape) (hlone : e.Lone)
    (hbrace : e.lead ≠ .object []) (hend : Terminates next term) :
    (Stmt.expr e).Reads next (ts ++ [term]) := by
  intro K hK
  have hends := ends_of_behind hK
  have hterm := ending_term hend hK
  have hexpr : Gives (Flush (ts ++ [term]) K) (Stmt.expr <$> Grammar.expr grammar) (.expr e)
      (Spaced [term] K) := by
    rw [flush_append]
    exact .map (gives_flush (h.whole fun k hk => (hterm k hk).done))
  have hstmtEnd := gives_stmtEnd hend hK
  have hopens := (e.opens hevery h.spelled).append [term]
  generalize ts ++ [term] = us at hexpr hopens
  cases hopens with
  | empty hempty => exact (hbrace hempty).elim
  | plain ht =>
      have hne {ws : List String} (hws : ∀ w ∈ ws, w ∈ reservedWords ∧ w ∉ plainWords) (w : String)
          (hw : w ∈ ws) := ht.ne (hws w hw).1 (hws w hw).2
      exact gives_expr hends ht.proper (ht.avoids (by decide))
        (refuses_compound hends ht.proper (ht.avoids (by decide)) (hne (by decide)))
        (.bind (refuses_functionDef hends ht.proper (ht.ne (by decide) (by decide)))) (hne (by decide))
        hexpr hstmtEnd
  | object key ts =>
      have hproper : (Token.word "\x7b").Proper := rfl
      exact gives_expr hends hproper (avoids_word rfl rfl) (refuses_object hends key)
        (.bind (refuses_functionDef hends hproper (word_ne (by decide))))
        (word_ne_of_notMem (by decide)) hexpr hstmtEnd
  | @function f hf us hspelled vs =>
      have hanonymous : f.name = none := hlone f hf
      have hproper : (Token.word "function").Proper := rfl
      have hdecl : Refuses (Flush (us ++ vs) K) (functionDecl grammar) := by
        rw [flush_append]
        refine (h.lead f hf us hspelled (ends_spaced hends)).refuses ?_
        rw [hanonymous]
        exact fun _ _ => rfl
      cases hspelled
      exact gives_expr hends hproper (avoids_word rfl rfl)
        (refuses_compound hends hproper (avoids_word rfl rfl) (word_ne_of_notMem (by decide))) hdecl
        (word_ne_of_notMem (by decide)) hexpr hstmtEnd

mutual

theorem Expr.readBack : (e : Expr) → e.Every .shape → e.Every .unbraced → {ts : List Token} →
    e.Spelled ts → e.ReadBack ts
  | .ident _, h, _, _, .ident _ => .ident h
  | .number _, h, _, _, .number _ => .number h
  | .bool b, _, _, _, .bool _ => .bool b
  | .null, _, _, _, .null => .null
  | .string _, _, _, _, .string _ => .string
  | .paren e, h, h', _, .paren hs => .paren h (e.readBack h.2 h'.2 hs)
  | .array items, h, h', _, .array hs => .array h hs (readBack_exprs items h.2 h'.2 hs)
  | .object ps, h, h', _, .object hs => .object h hs (readBack_properties ps h.2 h'.2 hs)
  | .function f, h, h', _, .function hs => .function h hs fun _ => f.reads h.1 h.2 h'.2
  | .field e _, h, h', _, .field hs _ => .field h (e.readBack h.2 h'.2 hs)
  | .index e k, h, h', _, .index hs hk =>
      .index h (e.readBack h.2.1 h'.2.1 hs) (k.readBack h.2.2 h'.2.2 hk)
  | .call e args, h, h', _, .call hs hargs =>
      .call h (e.readBack h.2.1 h'.2.1 hs) hargs (readBack_exprs args h.2.2 h'.2.2 hargs)
  | .new e args, h, h', _, .new hs hargs =>
      .new h (e.readBack h.2.1 h'.2.1 hs) hargs (readBack_exprs args h.2.2 h'.2.2 hargs)
  | .binary _ l r, h, h', _, .binary _ hl hr =>
      .binary h (l.readBack h.2.1 h'.2.1 hl) (r.readBack h.2.2 h'.2.2 hr)
  | .unary _ e, h, h', _, .unary _ hs => .unary h (e.readBack h.2 h'.2 hs)
  | .update .preIncrement e, h, h', _, .preIncrement hs => .preIncrement h (e.readBack h.2 h'.2 hs)
  | .update .preDecrement e, h, h', _, .preDecrement hs => .preDecrement h (e.readBack h.2 h'.2 hs)
  | .update .postIncrement e, h, h', _, .postIncrement hs =>
      .postIncrement h (e.readBack h.2 h'.2 hs)
  | .update .postDecrement e, h, h', _, .postDecrement hs =>
      .postDecrement h (e.readBack h.2 h'.2 hs)
  | .assign _ l r, h, h', _, .assign _ hl hr =>
      .assign h (l.readBack h.2.1 h'.2.1 hl) (r.readBack h.2.2 h'.2.2 hr)
  | .cond c t f, h, h', _, .cond hc ht hf => .cond h (c.readBack h.2.1 h'.2.1 hc)
      (t.readBack h.2.2.1 h'.2.2.1 ht) (f.readBack h.2.2.2 h'.2.2.2 hf)

theorem readBack_exprs : (es : List Expr) → everyExpr .shape es → everyExpr .unbraced es →
    {tss : List (List Token)} → SpelledExprs es tss → List.Forall₂ ReadBack es tss
  | [], _, _, _, .nil => .nil
  | e :: es, h, h', _, .cons hs hes =>
      .cons (e.readBack h.1 h'.1 hs) (readBack_exprs es h.2 h'.2 hes)

theorem readBack_properties : (ps : List (String × Expr)) → everyProperty .shape ps →
    everyProperty .unbraced ps → {tss : List (List Token)} → SpelledProperties ps tss →
    List.Forall₂ (ReadsItem (property grammar)) ps tss
  | [], _, _, _, .nil => .nil
  | (key, e) :: ps, h, h', _, .cons _ hs hps => .cons
      (readsItem_property key (e.readBack h.1 h'.1 hs).whole) (readBack_properties ps h.2 h'.2 hps)

theorem readBack_option : (o : Option Expr) → everyOption .shape o → everyOption .unbraced o →
    {ts : List Token} → SpelledOption o ts → ReadsOption o ts
  | none, _, _, _, .none => .none
  | some e, h, h', _, .some hs => .some (e.readBack h h' hs).whole (e.starts h hs)

theorem readBack_declarators : (ds : List (String × Option Expr)) →
    (∀ d ∈ ds, IsIdentifier d.1) → everyDeclarator .shape ds → everyDeclarator .unbraced ds →
    {tss : List (List Token)} → SpelledDeclarators ds tss →
    List.Forall₂ (ReadsItem (declarator grammar)) ds tss
  | [], _, _, _, _, .nil => .nil
  | (x, none) :: ds, hx, h, h', _, .bare _ hds => by
      obtain ⟨hx, hxs⟩ := List.forall_mem_cons.mp hx
      exact .cons (readsItem_bare hx) (readBack_declarators ds hxs h.2 h'.2 hds)
  | (x, some e) :: ds, hx, h, h', _, .init _ hs hds => by
      obtain ⟨hx, hxs⟩ := List.forall_mem_cons.mp hx
      exact .cons (readsItem_init hx (e.readBack h.1 h'.1 hs).whole)
        (readBack_declarators ds hxs h.2 h'.2 hds)

theorem Function.reads : (f : Function) → f.Shaped → f.Every .shape → f.Every .unbraced →
    {ts : List Token} → f.Spelled ts → f.Reads ts
  | .mk _ _ body, hf, h, h', _, .mk _ _ hs => readsFunction hf (reads_stmts body h h' hs)

theorem Stmt.reads : (t : Stmt) → t.Every .shape → t.Every .unbraced → {next : Option Token} →
    {ts : List Token} → t.Spelled next ts → t.Reads next ts
  | .decl _ ds, h, h', _, _, .decl _ hds hend =>
      reads_decl h.1.1 (readBack_declarators ds h.1.2 h.2 h'.2 hds) hend
  | .function f, h, h', _, _, .function hs =>
      reads_function h.1.1 hs (f.reads h.1.2 h.2 h'.2 hs)
  | .ifElse c t none, h, h', _, _, .ifThen hc ht =>
      reads_ifThen (c.readBack h.2.1 h'.2.1 hc).whole (t.reads h.2.2.1 h'.2.2.1 ht)
  | .ifElse c t (some f), h, h', _, _, .ifElse hc ht hf =>
      reads_ifElse (c.readBack h.2.1 h'.2.1 hc).whole h.1 (t.reads h.2.2.1 h'.2.2.1 ht)
        (f.reads h.2.2.2 h'.2.2.2 hf)
  | .whileLoop c body, h, h', _, _, .whileLoop hc hs =>
      reads_whileLoop (c.readBack h.2.1 h'.2.1 hc).whole (body.reads h.2.2 h'.2.2 hs)
  | .doWhile body c, h, h', _, _, .doWhile hs hc hend =>
      reads_doWhile (body.reads h.2.1 h'.2.1 hs) (c.readBack h.2.2 h'.2.2 hc).whole hend
  | .forLoop init test after body, h, h', _, _, .forLoop hinit htest hafter hs =>
      reads_forLoop (reads_init init h.2.1 h'.2.1 hinit)
        (readBack_option test h.2.2.1 h'.2.2.1 htest)
        (readBack_option after h.2.2.2.1 h'.2.2.2.1 hafter) (body.reads h.2.2.2.2 h'.2.2.2.2 hs)
  | .block body, h, h', _, _, .block hs => reads_block (reads_stmts body h.2 h'.2 hs)
  | .tryCatch body handler finalizer, h, h', _, _, .tryCatch hs hhandler hfinalizer =>
      reads_tryCatch h.1.1 (reads_stmts body h.2.1 h'.2.1 hs)
        (reads_handler handler h.1.2 h.2.2.1 h'.2.2.1 hhandler)
        (reads_finalizer finalizer h.2.2.2 h'.2.2.2 hfinalizer)
  | .breakLoop, _, _, _, _, .breakLoop hend => reads_breakLoop hend
  | .continueLoop, _, _, _, _, .continueLoop hend => reads_continueLoop hend
  | .returnValue e, h, h', _, _, .returnValue hs hend =>
      reads_returnValue (readBack_option e h.2 h'.2 hs) hend
  | .throw e, h, h', _, _, .throw hs hend =>
      reads_throw (e.readBack h.2 h'.2 hs).whole (e.starts h.2 hs) hend
  | .expr e, h, h', _, _, .expr hs hend =>
      reads_expr (e.readBack h.2.2 h'.2.2 hs) h.2.2 h.2.1 h'.2.1 hend
  | .empty, _, _, _, _, .empty _ => reads_empty

theorem reads_handler : (c : Option (String × List Stmt)) → (∀ c' ∈ c, IsIdentifier c'.1) →
    everyHandler .shape c → everyHandler .unbraced c → {ts : List Token} → SpelledHandler c ts →
    ReadsHandler c ts
  | none, _, _, _, _, .none => .none
  | some (_, body), hx, h, h', _, .some _ hs => .some (hx _ rfl) (reads_stmts body h h' hs)

theorem reads_finalizer : (f : Option (List Stmt)) → everyFinalizer .shape f →
    everyFinalizer .unbraced f → {ts : List Token} → SpelledFinalizer f ts → ReadsFinalizer f ts
  | none, _, _, _, .none => .none
  | some body, h, h', _, .some hs => .some (reads_stmts body h h' hs)

theorem reads_init : (init : Option Stmt) → everyInit .shape init → everyInit .unbraced init →
    {ts : List Token} → SpelledInit init ts → ReadsInit init ts
  | none, _, _, _, .none => .none
  | some (.decl kind ds), h, h', _, .decl _ hds =>
      .decl kind h.1.1 (readBack_declarators ds h.1.2 h.2 h'.2 hds)
  | some (.expr e), h, h', _, .expr hs => .expr (e.readBack h h' hs).whole (e.starts h hs)

theorem reads_stmts : (body : List Stmt) → everyStmt .shape body → everyStmt .unbraced body →
    {next : Option Token} → {ts : List Token} → SpelledStmts body next ts → ReadsStmts body ts
  | [], _, _, _, _, .nil _ => readsStmts_nil
  | t :: rest, h, h', _, _, .cons ht hrest => readsStmts_cons (t.reads h.1 h'.1 ht)
      (heads_stmts h.2 hrest) (reads_stmts rest h.2 h'.2 hrest)

end

theorem many_stmt_space {s r : List Char} {t : Stmt} {ts : List Stmt}
    (h : many (stmt grammar) (' ' :: s) = some (t :: ts, r)) :
    many (stmt grammar) s = some (t :: ts, r) := by
  have hspace : stmt grammar (' ' :: s) = stmt grammar s := gap_space _ s
  rw [many, repeated, hspace] at h
  rw [many, repeated]
  cases hs : stmt grammar s with
  | none =>
      rw [hs] at h
      cases h
  | some x =>
      rw [hs] at h
      exact h

theorem Token.Joined.flush {s : List Char} (h : Joined (t :: ts) s) : Flush (t :: ts) (· = []) s := by
  generalize hus : t :: ts = us at h
  induction h generalizing t ts with
  | nil => cases hus
  | single h => exact flush_cons.mpr ⟨_, [], (List.append_nil _).symm, h, rfl⟩
  | cons h _ ih => exact flush_cons.mpr ⟨_, _, rfl, h, ih rfl⟩

/-- Every spelling of a program is read as the program. -/
theorem Program.ofChars?_spelling {t : Program} {s : List Char} (hshape : everyStmt .shape t)
    (hbraces : everyStmt .unbraced t) (h : Program.Spells t s) : ofChars? s = .ok t := by
  obtain ⟨ts, hspelled, hs⟩ := h
  have hread := reads_stmts t hshape hbraces hspelled
  have hstop : Follower Stop (· = []) := fun _ hk => .inl hk
  cases hspelled with
  | nil =>
      cases hs
      exact ofChars?_eq_ok.mpr ⟨[], rfl, rfl⟩
  | cons ht _ =>
      obtain ⟨tok, us, rfl, -⟩ := Stmt.heads hshape.1 ht
      obtain ⟨r, hr, _, rfl, hgap⟩ := hread hstop _ hs.flush
      rw [grammar_stmts] at hr
      refine ofChars?_eq_ok.mpr ⟨r, ?_, hgap⟩
      rw [grammar_stmts]
      exact many_stmt_space hr

end SmallScript
