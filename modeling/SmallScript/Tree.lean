namespace SmallScript

inductive UnaryOp where
  | bitNot
  | not
  | minus
  | plus
  | typeOf
  deriving DecidableEq

inductive UpdateOp where
  | preIncrement
  | preDecrement
  | postIncrement
  | postDecrement
  deriving DecidableEq

inductive BinaryOp where
  | mul
  | div
  | rem
  | add
  | sub
  | shiftLeft
  | shiftRight
  | shiftRightUnsigned
  | less
  | lessEq
  | greater
  | greaterEq
  | looseEq
  | looseNe
  | strictEq
  | strictNe
  | bitAnd
  | bitXor
  | bitOr
  | and
  | or
  deriving DecidableEq

inductive AssignOp where
  | set
  | add
  | sub
  | mul
  | div
  | rem
  deriving DecidableEq

inductive DeclKind where
  | var
  | letDecl
  | constDecl
  deriving DecidableEq

mutual

inductive Expr where
  | ident (name : String)
  | number (value : Float)
  | bool (value : Bool)
  | null
  | string (value : String)
  | paren (inner : Expr)
  | array (items : List Expr)
  /-- Keys and values in the order written, duplicates kept. -/
  | object (properties : List (String × Expr))
  | function (definition : Function)
  | field (object : Expr) (name : String)
  | index (object key : Expr)
  | call (callee : Expr) (arguments : List Expr)
  | new (callee : Expr) (arguments : List Expr)
  | binary (op : BinaryOp) (left right : Expr)
  | unary (op : UnaryOp) (operand : Expr)
  | update (op : UpdateOp) (target : Expr)
  | assign (op : AssignOp) (target value : Expr)
  | cond (test whenTrue whenFalse : Expr)

inductive Stmt where
  | decl (kind : DeclKind) (declarators : List (String × Option Expr))
  | function (definition : Function)
  | ifElse (test : Expr) (whenTrue : Stmt) (whenFalse : Option Stmt)
  | whileLoop (test : Expr) (body : Stmt)
  | doWhile (body : Stmt) (test : Expr)
  | forLoop (init : Option Stmt) (test update : Option Expr) (body : Stmt)
  | block (body : List Stmt)
  | tryCatch (body : List Stmt) (handler : Option (String × List Stmt))
      (finalizer : Option (List Stmt))
  | breakLoop
  | continueLoop
  | returnValue (value : Option Expr)
  | throw (value : Expr)
  | expr (value : Expr)
  | empty

inductive Function where
  | mk (name : Option String) (params : List String) (body : List Stmt)

end

namespace Function

def name : Function → Option String
  | mk name _ _ => name

def params : Function → List String
  | mk _ params _ => params

def body : Function → List Stmt
  | mk _ _ body => body

end Function

namespace BinaryOp

def symbol : BinaryOp → String
  | mul => "*"
  | div => "/"
  | rem => "%"
  | add => "+"
  | sub => "-"
  | shiftLeft => "<<"
  | shiftRight => ">>"
  | shiftRightUnsigned => ">>>"
  | less => "<"
  | lessEq => "<="
  | greater => ">"
  | greaterEq => ">="
  | looseEq => "=="
  | looseNe => "!="
  | strictEq => "==="
  | strictNe => "!=="
  | bitAnd => "&"
  | bitXor => "^"
  | bitOr => "|"
  | and => "&&"
  | or => "||"

end BinaryOp

def UnaryOp.symbol : UnaryOp → String
  | bitNot => "~"
  | not => "!"
  | minus => "-"
  | plus => "+"
  | typeOf => "typeof"

def UpdateOp.symbol : UpdateOp → String
  | preIncrement | postIncrement => "++"
  | preDecrement | postDecrement => "--"

def AssignOp.symbol : AssignOp → String
  | set => "="
  | add => "+="
  | sub => "-="
  | mul => "*="
  | div => "/="
  | rem => "%="

def DeclKind.keyword : DeclKind → String
  | var => "var"
  | letDecl => "let"
  | constDecl => "const"

end SmallScript
