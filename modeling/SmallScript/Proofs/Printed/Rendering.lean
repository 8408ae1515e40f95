import SmallScript.Proofs.Printed.Program
import Mathlib

namespace SmallScript

open Grammar Lexical Scan Token

variable {t : Token} {ts us : List Token} {w : String}

namespace Token

def Writable (ts : List Token) : Prop := ∀ t ∈ ts, ∃ s, t.Writes s

theorem writable_nil : Writable [] := nofun

theorem Writable.word (h : Writable ts) : Writable (.word w :: ts) :=
  List.forall_mem_cons.mpr ⟨⟨w.toList, rfl⟩, h⟩

theorem Writable.append (h : Writable ts) (h' : Writable us) : Writable (ts ++ us) :=
  List.forall_mem_append.mpr ⟨h, h'⟩

theorem Writable.bracketed {opening closing : String} (h : Writable ts) :
    Writable (bracketed opening closing ts) :=
  (h.append writable_nil.word).word

theorem Writable.separated {items : List (List Token)} (h : ∀ ts ∈ items, Writable ts) :
    Writable (separated items) := by
  cases items with
  | nil => exact writable_nil
  | cons item items =>
      obtain ⟨hitem, hitems⟩ := List.forall_mem_cons.mp h
      refine hitem.append fun t ht => ?_
      obtain ⟨ts, hts, hmem⟩ := List.mem_flatMap.mp ht
      exact (hitems ts hts).word t hmem

theorem exists_joined (h : Writable ts) : ∃ s, Joined ts s := by
  induction ts with
  | nil => exact ⟨[], .nil⟩
  | cons t ts ih =>
      obtain ⟨⟨s, hs⟩, hts⟩ := List.forall_mem_cons.mp h
      cases ts with
      | nil => exact ⟨s, .single hs⟩
      | cons t' ts =>
          obtain ⟨r, hr⟩ := ih hts
          exact ⟨s ++ ' ' :: r, .cons hs hr⟩

end Token

mutual

theorem Expr.writable : (e : Expr) → e.Every .shape → Writable e.tokens
  | .ident _, _ | .bool _, _ | .null, _ => writable_nil.word
  | .number _, h => List.forall_mem_singleton.mpr h
  | .string v, _ => List.forall_mem_singleton.mpr ⟨stringLiteral v, rfl⟩
  | .paren e, h => (e.writable h.2).bracketed
  | .array items, h => (Writable.separated (writable_exprs items h.2)).bracketed
  | .object ps, h => (Writable.separated (writable_properties ps h.2)).bracketed
  | .function f, h => f.writable h.2
  | .field e _, h => (e.writable h.2).append writable_nil.word.word
  | .index e k, h => (e.writable h.2.1).append (k.writable h.2.2).bracketed
  | .call e args, h =>
      (e.writable h.2.1).append (Writable.separated (writable_exprs args h.2.2)).bracketed
  | .new e args, h =>
      ((e.writable h.2.1).append (Writable.separated (writable_exprs args h.2.2)).bracketed).word
  | .binary _ l r, h => (l.writable h.2.1).append (r.writable h.2.2).word
  | .unary _ e, h => (e.writable h.2).word
  | .update .preIncrement e, h | .update .preDecrement e, h => (e.writable h.2).word
  | .update .postIncrement e, h | .update .postDecrement e, h =>
      (e.writable h.2).append writable_nil.word
  | .assign _ l r, h => (l.writable h.2.1).append (r.writable h.2.2).word
  | .cond c t f, h =>
      (c.writable h.2.1).append ((t.writable h.2.2.1).append (f.writable h.2.2.2).word).word

theorem writable_exprs : (es : List Expr) → everyExpr .shape es → ∀ ts ∈ exprTokens es, Writable ts
  | [], _ => nofun
  | e :: es, h => List.forall_mem_cons.mpr ⟨e.writable h.1, writable_exprs es h.2⟩

theorem writable_properties : (ps : List (String × Expr)) → everyProperty .shape ps →
    ∀ ts ∈ propertyTokens ps, Writable ts
  | [], _ => nofun
  | (key, e) :: ps, h => List.forall_mem_cons.mpr
      ⟨List.forall_mem_cons.mpr ⟨⟨stringLiteral key, rfl⟩, (e.writable h.1).word⟩,
        writable_properties ps h.2⟩

theorem writable_option : (o : Option Expr) → everyOption .shape o → Writable (optionTokens o)
  | none, _ => writable_nil
  | some e, h => e.writable h

theorem Function.writable : (f : Function) → f.Every .shape → Writable f.tokens
  | .mk name params body, h => by
      have hname : Writable (nameTokens name) := by
        cases name with
        | none => exact writable_nil
        | some x => exact writable_nil.word
      have hparams : Writable (separated (params.map fun x => [Token.word x])) := by
        refine .separated fun ts hts => ?_
        obtain ⟨x, -, rfl⟩ := List.mem_map.mp hts
        exact writable_nil.word
      exact (hname.append (hparams.bracketed.append (writable_stmts body h).bracketed)).word

theorem writable_declarators : (ds : List (String × Option Expr)) → everyDeclarator .shape ds →
    ∀ ts ∈ declaratorTokens ds, Writable ts
  | [], _ => nofun
  | (_, none) :: ds, h =>
      List.forall_mem_cons.mpr ⟨writable_nil.word, writable_declarators ds h.2⟩
  | (_, some e) :: ds, h =>
      List.forall_mem_cons.mpr ⟨(e.writable h.1).word.word, writable_declarators ds h.2⟩

theorem Stmt.writable : (t : Stmt) → t.Every .shape → Writable t.tokens
  | .decl _ ds, h =>
      ((Writable.separated (writable_declarators ds h.2)).append writable_nil.word).word
  | .function f, h => f.writable h.2
  | .ifElse c t f, h => ((c.writable h.2.1).bracketed.append
      ((t.writable h.2.2.1).append (writable_branch f h.2.2.2))).word
  | .whileLoop c body, h => ((c.writable h.2.1).bracketed.append (body.writable h.2.2)).word
  | .doWhile body c, h => ((body.writable h.2.1).append
      ((c.writable h.2.2).bracketed.append writable_nil.word).word).word
  | .forLoop init test next body, h =>
      (((writable_init init h.2.1).append ((writable_option test h.2.2.1).append
        (writable_option next h.2.2.2.1).word).word).bracketed.append (body.writable h.2.2.2.2)).word
  | .block body, h => (writable_stmts body h.2).bracketed
  | .tryCatch body handler finalizer, h => ((writable_stmts body h.2.1).bracketed.append
      ((writable_handler handler h.2.2.1).append (writable_finalizer finalizer h.2.2.2))).word
  | .breakLoop, _ | .continueLoop, _ => writable_nil.word.word
  | .returnValue e, h => ((writable_option e h.2).append writable_nil.word).word
  | .throw e, h => ((e.writable h.2).append writable_nil.word).word
  | .expr e, h => (e.writable h.2.2).append writable_nil.word
  | .empty, _ => writable_nil.word

theorem writable_branch : (f : Option Stmt) → everyBranch .shape f → Writable (branchTokens f)
  | none, _ => writable_nil
  | some t, h => (t.writable h).word

theorem writable_handler : (c : Option (String × List Stmt)) → everyHandler .shape c →
    Writable (handlerTokens c)
  | none, _ => writable_nil
  | some (_, body), h =>
      (writable_nil.word.bracketed.append (writable_stmts body h).bracketed).word

theorem writable_finalizer : (f : Option (List Stmt)) → everyFinalizer .shape f →
    Writable (finalizerTokens f)
  | none, _ => writable_nil
  | some body, h => (writable_stmts body h).bracketed.word

theorem writable_init : (init : Option Stmt) → everyInit .shape init → Writable (initTokens init)
  | none, _ => writable_nil
  | some (.decl _ ds), h => (Writable.separated (writable_declarators ds h.2)).word
  | some (.expr e), h => e.writable h
  | some (.function f), h => Stmt.writable (.function f) h
  | some (.ifElse c t f), h => Stmt.writable (.ifElse c t f) h
  | some (.whileLoop c body), h => Stmt.writable (.whileLoop c body) h
  | some (.doWhile body c), h => Stmt.writable (.doWhile body c) h
  | some (.forLoop init test next body), h => Stmt.writable (.forLoop init test next body) h
  | some (.block body), h => Stmt.writable (.block body) h
  | some (.tryCatch body handler finalizer), h => Stmt.writable (.tryCatch body handler finalizer) h
  | some .breakLoop, _ | some .continueLoop, _ => writable_nil.word.word
  | some (.returnValue e), h => Stmt.writable (.returnValue e) h
  | some (.throw e), h => Stmt.writable (.throw e) h
  | some .empty, _ => writable_nil.word

theorem writable_stmts : (ts : List Stmt) → everyStmt .shape ts → Writable (stmtTokens ts)
  | [], _ => writable_nil
  | t :: ts, h => (t.writable h.1).append (writable_stmts ts h.2)

end

namespace Program

/-- A program that was read is read again from each of its renderings, of which there are some. -/
theorem parse_rendering {source : String} {t : Program} (h : parse source = .ok t)
    (hbraces : everyStmt .unbraced t) :
    (∃ s, Renders t s) ∧ ∀ s, Renders t s → parse (String.ofList s) = .ok t := by
  have hshape := shape_of_parse h
  refine ⟨exists_joined (writable_stmts t hshape), fun s hs => ?_⟩
  rw [parse, String.toList_ofList]
  exact ofChars?_spelling hshape hbraces (hs.spells hshape)

/-- `new` is written with its arguments, also if it was read without. -/
theorem parse_rendering_new :
    let t : Program := [.expr (.new (.ident "A") [])]
    let text := "new A ( ) ;".toList
    parse "new A" = .ok t ∧ everyStmt .unbraced t ∧ Renders t text ∧
      parse (String.ofList text) = .ok t := by
  intro t text
  have h : parse "new A" = .ok t := by cbv
  have hlone : (Expr.new (.ident "A") []).lead ≠ .object [] := by
    intro hobject
    cases hobject
  have hbraces : everyStmt .unbraced t := ⟨⟨trivial, hlone, trivial, trivial, trivial⟩, trivial⟩
  have htext : Renders t text :=
    .cons (s := "new".toList) rfl (.cons (s := ['A']) rfl (.cons (s := ['(']) rfl
      (.cons (s := [')']) rfl (.single rfl))))
  exact ⟨h, hbraces, htext, (parse_rendering h hbraces).2 text htext⟩

/-- Line feeds do for semicolons where the next token cannot go on with the line, and in front of a
closing brace and at the end nothing does. -/
theorem parse_spelling {source : String} {t : Program} (h : parse source = .ok t)
    (hbraces : everyStmt .unbraced t) : ∀ s, Spells t s → parse (String.ofList s) = .ok t := by
  intro s hs
  rw [parse, String.toList_ofList]
  exact ofChars?_spelling (shape_of_parse h) hbraces hs

/-- A step on a line of its own belongs to the operand behind it. -/
theorem parse_spelling_step :
    let t : Program := [.function (.mk (some "f") [] [.returnValue (some (.ident "a"))]),
      .expr (.assign .set (.ident "x") (.ident "f")), .expr (.update .preIncrement (.ident "y"))]
    let text := "function f ( ) \x7b return a  \x7d x = f \n ++ y ".toList
    parse "function f() \x7b return a; \x7d x = f; ++y;" = .ok t ∧ everyStmt .unbraced t ∧
      Spells t text ∧ parse (String.ofList text) = .ok t := by
  intro t text
  have h : parse "function f() \x7b return a; \x7d x = f; ++y;" = .ok t := by cbv
  have hassign : (Expr.assign .set (.ident "x") (.ident "f")).lead ≠ .object [] := by
    intro hobject
    cases hobject
  have hstep : (Expr.update .preIncrement (.ident "y")).lead ≠ .object [] := by
    intro hobject
    cases hobject
  have hbraces : everyStmt .unbraced t :=
    ⟨⟨trivial, ⟨trivial, trivial⟩, trivial⟩, ⟨trivial, hassign, trivial, trivial, trivial⟩,
      ⟨trivial, hstep, trivial, trivial⟩, trivial⟩
  have hreturn : Stmt.Spelled (.returnValue (some (.ident "a"))) (some (.word "\x7d"))
      [.word "return", .word "a", .word ""] :=
    .returnValue (.some (.ident "a")) (.nothing (by rintro _ ⟨⟩; rfl))
  have hassigned : Stmt.Spelled (.expr (.assign .set (.ident "x") (.ident "f"))) (some (.word "++"))
      [.word "x", .word "=", .word "f", .word "\n"] := by
    refine .expr (.assign .set (.ident "x") (.ident "f")) (.lineFeed ?_)
    rintro _ ⟨⟩ w hw ⟨⟩
    revert hw
    decide
  have hstepped : Stmt.Spelled (.expr (.update .preIncrement (.ident "y"))) none
      [.word "++", .word "y", .word ""] :=
    .expr (.preIncrement (.ident "y")) (.nothing (by rintro _ ⟨⟩))
  have hspelled := SpelledStmts.cons (.function (.mk (some "f") [] (.cons hreturn (.nil _))))
    (.cons hassigned (.cons hstepped (.nil none)))
  have htext : Spells t text := by
    refine ⟨_, hspelled, ?_⟩
    exact .cons (s := "function".toList) rfl (.cons (s := ['f']) rfl (.cons (s := ['(']) rfl
      (.cons (s := [')']) rfl (.cons (s := ['\x7b']) rfl (.cons (s := "return".toList) rfl
      (.cons (s := ['a']) rfl (.cons (s := []) rfl (.cons (s := ['\x7d']) rfl
      (.cons (s := ['x']) rfl (.cons (s := ['=']) rfl (.cons (s := ['f']) rfl
      (.cons (s := ['\n']) rfl (.cons (s := "++".toList) rfl (.cons (s := ['y']) rfl
      (.single rfl)))))))))))))))
  exact ⟨h, hbraces, htext, parse_spelling h hbraces text htext⟩

end Program

end SmallScript
