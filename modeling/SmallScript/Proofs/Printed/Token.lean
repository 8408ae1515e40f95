import SmallScript.Proofs.Lexical.Literal
import SmallScript.Tree

namespace SmallScript

open Lexical

inductive Token where
  /-- A name, a keyword or a symbol. -/
  | word (w : String)
  | number (x : Float)
  | string (v : String)

namespace Token

/-- The text writes the token. A number may be written as any of its literals. -/
def Writes : Token → List Char → Prop
  | word w, s => s = w.toList
  | number x, s => Number.Numeral.numeral s = some (x, [])
  | string v, s => s = stringLiteral v

inductive Joined : List Token → List Char → Prop where
  | nil : Joined [] []
  | single {t : Token} {s : List Char} (h : t.Writes s) : Joined [t] s
  | cons {t t' : Token} {ts : List Token} {s r : List Char} (h : t.Writes s)
      (hr : Joined (t' :: ts) r) : Joined (t :: t' :: ts) (s ++ ' ' :: r)

def separated : List (List Token) → List Token
  | [] => []
  | item :: rest => item ++ rest.flatMap (word "," :: ·)

def bracketed (opening closing : String) (ts : List Token) : List Token :=
  word opening :: (ts ++ [word closing])

def nameTokens : Option String → List Token
  | none => []
  | some x => [word x]

end Token

open Token

mutual

def Expr.tokens : Expr → List Token
  | .ident x => [.word x]
  | .number x => [.number x]
  | .bool b => [.word (if b then "true" else "false")]
  | .null => [.word "null"]
  | .string v => [.string v]
  | .paren e => bracketed "(" ")" e.tokens
  | .array items => bracketed "[" "]" (separated (exprTokens items))
  | .object properties => bracketed "\x7b" "\x7d" (separated (propertyTokens properties))
  | .function f => f.tokens
  | .field e x => e.tokens ++ [.word ".", .word x]
  | .index e k => e.tokens ++ bracketed "[" "]" k.tokens
  | .call e args => e.tokens ++ bracketed "(" ")" (separated (exprTokens args))
  | .new e args => .word "new" :: (e.tokens ++ bracketed "(" ")" (separated (exprTokens args)))
  | .binary op l r => l.tokens ++ .word op.symbol :: r.tokens
  | .unary op e => .word op.symbol :: e.tokens
  | .update .preIncrement e => .word "++" :: e.tokens
  | .update .preDecrement e => .word "--" :: e.tokens
  | .update .postIncrement e => e.tokens ++ [.word "++"]
  | .update .postDecrement e => e.tokens ++ [.word "--"]
  | .assign op l r => l.tokens ++ .word op.symbol :: r.tokens
  | .cond c t f => c.tokens ++ .word "?" :: (t.tokens ++ .word ":" :: f.tokens)

def exprTokens : List Expr → List (List Token)
  | [] => []
  | e :: es => e.tokens :: exprTokens es

def propertyTokens : List (String × Expr) → List (List Token)
  | [] => []
  | (key, e) :: ps => (.string key :: .word ":" :: e.tokens) :: propertyTokens ps

def optionTokens : Option Expr → List Token
  | none => []
  | some e => e.tokens

def Function.tokens : Function → List Token
  | .mk name params body => .word "function" :: (nameTokens name ++
      (bracketed "(" ")" (separated (params.map fun x => [.word x])) ++
        bracketed "\x7b" "\x7d" (stmtTokens body)))

def declaratorTokens : List (String × Option Expr) → List (List Token)
  | [] => []
  | (x, none) :: ds => [.word x] :: declaratorTokens ds
  | (x, some e) :: ds => (.word x :: .word "=" :: e.tokens) :: declaratorTokens ds

def Stmt.tokens : Stmt → List Token
  | .decl kind ds => .word kind.keyword :: (separated (declaratorTokens ds) ++ [.word ";"])
  | .function f => f.tokens
  | .ifElse c t f => .word "if" :: (bracketed "(" ")" c.tokens ++ (t.tokens ++ branchTokens f))
  | .whileLoop c body => .word "while" :: (bracketed "(" ")" c.tokens ++ body.tokens)
  | .doWhile body c => .word "do" ::
      (body.tokens ++ .word "while" :: (bracketed "(" ")" c.tokens ++ [.word ";"]))
  | .forLoop init test update body => .word "for" ::
      (bracketed "(" ")" (initTokens init ++ .word ";" ::
        (optionTokens test ++ .word ";" :: optionTokens update)) ++ body.tokens)
  | .block body => bracketed "\x7b" "\x7d" (stmtTokens body)
  | .tryCatch body handler finalizer => .word "try" ::
      (bracketed "\x7b" "\x7d" (stmtTokens body) ++
        (handlerTokens handler ++ finalizerTokens finalizer))
  | .breakLoop => [.word "break", .word ";"]
  | .continueLoop => [.word "continue", .word ";"]
  | .returnValue e => .word "return" :: (optionTokens e ++ [.word ";"])
  | .throw e => .word "throw" :: (e.tokens ++ [.word ";"])
  | .expr e => e.tokens ++ [.word ";"]
  | .empty => [.word ";"]

def branchTokens : Option Stmt → List Token
  | none => []
  | some t => .word "else" :: t.tokens

def handlerTokens : Option (String × List Stmt) → List Token
  | none => []
  | some (x, body) => .word "catch" ::
      (bracketed "(" ")" [.word x] ++ bracketed "\x7b" "\x7d" (stmtTokens body))

def finalizerTokens : Option (List Stmt) → List Token
  | none => []
  | some body => .word "finally" :: bracketed "\x7b" "\x7d" (stmtTokens body)

/-- The head of a `for` loop has its own semicolons. -/
def initTokens : Option Stmt → List Token
  | none => []
  | some (.decl kind ds) => .word kind.keyword :: separated (declaratorTokens ds)
  | some (.expr e) => e.tokens
  | some t => t.tokens

def stmtTokens : List Stmt → List Token
  | [] => []
  | t :: ts => t.tokens ++ stmtTokens ts

end

/-- The text renders the program: its tokens, with single spaces between them. -/
def Program.Renders (t : List Stmt) (s : List Char) : Prop := Joined (stmtTokens t) s

end SmallScript
