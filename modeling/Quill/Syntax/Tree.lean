import Quill.Number.Basic
import Quill.Position

/-!
# Syntax trees

Expressions and statements of the language. Every node carries the place where it begins, which
serves error reports only.
-/

set_option autoImplicit false

namespace Quill

/-- The operators that always evaluate both sides. -/
inductive BinaryOp
  | add | sub | mul | div | mod
  | eq | notEq
  | lt | ltEq | gt | gtEq
deriving DecidableEq, Repr

/-- The operators that may skip their right side. -/
inductive LogicalOp
  | and | or
deriving DecidableEq, Repr

/-- An operator in front of its operand. -/
inductive UnaryOp
  | neg | not
deriving DecidableEq, Repr

/-- An operator that changes its operand by one. -/
inductive UpdateOp
  | increment | decrement
deriving DecidableEq, Repr

/-- The operator as it is written. -/
def UpdateOp.spelling : UpdateOp → String
  | .increment => "++"
  | .decrement => "--"

/-- What a `for` over a container binds. -/
inductive Traversal
  /-- Elements, values or characters: `of`. -/
  | elements
  /-- Indices or keys: `in`. -/
  | indices
deriving DecidableEq, Repr

mutual

/-- An expression. -/
inductive Expr
  | number (value : Number) (position : Position)
  | string (value : String) (position : Position)
  | bool (value : Bool) (position : Position)
  | null (position : Position)
  | ident (name : String) (position : Position)
  /-- `[a, b, c]` -/
  | array (items : List Expr) (position : Position)
  /-- An object literal; its keys keep their order, repeated ones too. -/
  | object (entries : List (String × Expr)) (position : Position)
  | binary (op : BinaryOp) (left right : Expr) (position : Position)
  | logical (op : LogicalOp) (left right : Expr) (position : Position)
  | unary (op : UnaryOp) (operand : Expr) (position : Position)
  | call (callee : Expr) (args : List Expr) (position : Position)
  /-- `object.name`, or `object?.name` when `optional`. -/
  | member (object : Expr) (name : String) (optional : Bool) (position : Position)
  | index (object index : Expr) (position : Position)
  | ternary (condition whenTrue whenFalse : Expr) (position : Position)
  /-- `++x` when `before`, `x++` otherwise. -/
  | update (op : UpdateOp) (before : Bool) (target : Expr) (position : Position)
  | assign (target value : Expr) (position : Position)
  /-- `target += value` and its relatives. -/
  | compound (op : BinaryOp) (target value : Expr) (position : Position)
  /-- An arrow function or a `function` expression. -/
  | function (definition : FunctionDef)

/-- A function as it is written, without the scope it closes over. -/
structure FunctionDef where
  name : Option String
  params : List String
  body : FunctionBody
  position : Position

/-- The body of a function. -/
inductive FunctionBody
  | block (statements : List Stmt)
  /-- The body of an arrow function without braces. -/
  | expr (value : Expr)

/-- A statement. -/
inductive Stmt
  | expr (value : Expr)
  /-- `let x`, `let x = e` and `const x = e`. -/
  | declare (name : String) (constant : Bool) (init : Option Expr) (position : Position)
  | ifElse (condition : Expr) (whenTrue : Stmt) (whenFalse : Option Stmt) (position : Position)
  | ret (value : Option Expr) (position : Position)
  | block (statements : List Stmt) (position : Position)
  | whileLoop (condition : Expr) (body : Stmt) (position : Position)
  | doWhile (body : Stmt) (condition : Expr) (position : Position)
  /-- `for (init; condition; update) body`, every part optional. -/
  | forLoop (init : Option Stmt) (condition update : Option Expr) (body : Stmt) (position : Position)
  /-- `for (let name of subject) body` and its relatives. -/
  | forEach (name : String) (constant : Bool) (traversal : Traversal) (subject : Expr) (body : Stmt)
      (position : Position)
  | breakLoop (position : Position)
  | continueLoop (position : Position)
  | tryCatch (body : List Stmt) (handler : Option Handler) (cleanup : Option (List Stmt))
      (position : Position)
  | throw (value : Expr) (position : Position)
  | function (definition : FunctionDef)

/-- A `catch` clause. -/
structure Handler where
  param : String
  body : List Stmt
  position : Position

end

instance : Inhabited Expr := ⟨.null default⟩
instance : Inhabited Stmt := ⟨.breakLoop default⟩

/-- The name in reports. -/
def FunctionDef.displayName (d : FunctionDef) : String := d.name.getD "<anonymous>"

namespace Expr

/-- Where the expression begins. -/
def position : Expr → Position
  | number _ p | string _ p | bool _ p | null p | ident _ p | array _ p | object _ p
  | binary _ _ _ p | logical _ _ _ p | unary _ _ p | call _ _ p | member _ _ _ p | index _ _ p
  | ternary _ _ _ p | update _ _ _ p | assign _ _ p | compound _ _ _ p => p
  | function d => d.position

/-- The line where an expression begins. -/
def line (e : Expr) : Nat := e.position.line

/-- Variables, members read without `?.` and indexed elements can be written to. -/
def isAssignable : Expr → Bool
  | ident _ _ | member _ _ false _ | index _ _ _ => true
  | _ => false

end Expr

namespace Stmt

/-- Where the statement begins. -/
def position : Stmt → Position
  | expr e => e.position
  | declare _ _ _ p | ifElse _ _ _ p | ret _ p | block _ p | whileLoop _ _ p | doWhile _ _ p
  | forLoop _ _ _ _ p | forEach _ _ _ _ _ p | breakLoop p | continueLoop p | tryCatch _ _ _ p
  | throw _ p => p
  | function d => d.position

end Stmt

end Quill
