import Quill.Listing
import Quill.Number.Text
import Quill.Syntax.Tree
import Quill.Text.Quoted

/-!
# Listings of syntax trees

Every node with all its parts, in the order in which a reader of the listing expects them.
-/

set_option autoImplicit false

namespace Quill

namespace Listing

def ofBool (b : Bool) : Listing := .atom (if b then "true" else "false")

def ofText (s : String) : Listing := .atom (Text.quoted s)

def ofNat (n : Nat) : Listing := .atom (toString n)

/-- A position in a listing. -/
def ofPosition (p : Position) : Listing :=
  .fields "Span" [("line", ofNat p.line), ("column", ofNat p.column)]

end Listing

def BinaryOp.label : BinaryOp → String
  | add => "Add"
  | sub => "Sub"
  | mul => "Mul"
  | div => "Div"
  | mod => "Mod"
  | eq => "Eq"
  | notEq => "NotEq"
  | lt => "Lt"
  | ltEq => "LtEq"
  | gt => "Gt"
  | gtEq => "GtEq"

def LogicalOp.label : LogicalOp → String
  | and => "And"
  | or => "Or"

def UnaryOp.label : UnaryOp → String
  | neg => "Neg"
  | not => "Not"

def UpdateOp.label : UpdateOp → String
  | increment => "Increment"
  | decrement => "Decrement"

def Traversal.label : Traversal → String
  | elements => "Of"
  | indices => "In"

open Listing

mutual

/-- The listing of an expression. -/
def Expr.listing : Expr → Listing
  | .number n p => .tuple "Number" [.atom n.debugText, ofPosition p]
  | .string s p => .tuple "Str" [ofText s, ofPosition p]
  | .bool b p => .tuple "Bool" [ofBool b, ofPosition p]
  | .null p => .tuple "Null" [ofPosition p]
  | .ident name p => .tuple "Ident" [ofText name, ofPosition p]
  | .array items p => .tuple "Array" [.list (listExprs items), ofPosition p]
  | .object entries p => .tuple "Object" [.list (listEntries entries), ofPosition p]
  | .binary op left right p =>
    .fields "Binary" [("left", left.listing), ("op", .atom op.label), ("right", right.listing),
      ("span", ofPosition p)]
  | .logical op left right p =>
    .fields "Logical" [("left", left.listing), ("op", .atom op.label), ("right", right.listing),
      ("span", ofPosition p)]
  | .unary op operand p =>
    .fields "Unary" [("op", .atom op.label), ("operand", operand.listing), ("span", ofPosition p)]
  | .call callee args p =>
    .fields "Call" [("callee", callee.listing), ("args", .list (listExprs args)),
      ("span", ofPosition p)]
  | .member object name optional p =>
    .fields "Member" [("object", object.listing), ("property", ofText name),
      ("optional", ofBool optional), ("span", ofPosition p)]
  | .index object index p =>
    .fields "Index" [("object", object.listing), ("index", index.listing), ("span", ofPosition p)]
  | .ternary condition whenTrue whenFalse p =>
    .fields "Ternary" [("condition", condition.listing), ("then_expr", whenTrue.listing),
      ("else_expr", whenFalse.listing), ("span", ofPosition p)]
  | .update op before target p =>
    .fields "Update" [("op", .atom op.label), ("prefix", ofBool before),
      ("target", target.listing), ("span", ofPosition p)]
  | .assign target value p =>
    .fields "Assign" [("target", target.listing), ("value", value.listing), ("span", ofPosition p)]
  | .compound op target value p =>
    .fields "CompoundAssign" [("target", target.listing), ("op", .atom op.label),
      ("value", value.listing), ("span", ofPosition p)]
  | .function d => .tuple "Function" [d.listing]

/-- The listing of a function. -/
def FunctionDef.listing : FunctionDef → Listing
  | ⟨name, params, body, p⟩ =>
    .fields "FunctionDef" [("name", option (name.map ofText)),
      ("params", .list (params.map ofText)), ("body", body.listing), ("span", ofPosition p)]

/-- The listing of a function body. -/
def FunctionBody.listing : FunctionBody → Listing
  | .block stmts => .tuple "Block" [.list (listStmts stmts)]
  | .expr value => .tuple "Expr" [value.listing]

/-- The listing of a statement. -/
def Stmt.listing : Stmt → Listing
  | .expr value => .tuple "Expr" [value.listing]
  | .declare name constant init p =>
    .fields "VarDecl" [("name", ofText name), ("is_const", ofBool constant),
      ("initializer", listExpr? init), ("span", ofPosition p)]
  | .ifElse condition whenTrue whenFalse p =>
    .fields "If" [("condition", condition.listing), ("then_branch", whenTrue.listing),
      ("else_branch", listStmt? whenFalse), ("span", ofPosition p)]
  | .ret value p => .tuple "Return" [listExpr? value, ofPosition p]
  | .block stmts p => .tuple "Block" [.list (listStmts stmts), ofPosition p]
  | .whileLoop condition body p =>
    .fields "While" [("condition", condition.listing), ("body", body.listing),
      ("span", ofPosition p)]
  | .doWhile body condition p =>
    .fields "DoWhile" [("body", body.listing), ("condition", condition.listing),
      ("span", ofPosition p)]
  | .forLoop init condition update body p =>
    .fields "For" [("init", listStmt? init), ("condition", listExpr? condition),
      ("update", listExpr? update), ("body", body.listing), ("span", ofPosition p)]
  | .forEach name constant traversal subject body p =>
    .fields "ForEach" [("name", ofText name), ("is_const", ofBool constant),
      ("kind", .atom traversal.label), ("iterable", subject.listing), ("body", body.listing),
      ("span", ofPosition p)]
  | .breakLoop p => .tuple "Break" [ofPosition p]
  | .continueLoop p => .tuple "Continue" [ofPosition p]
  | .tryCatch body handler cleanup p =>
    .fields "Try" [("block", .list (listStmts body)), ("catch", listHandler? handler),
      ("finally", listCleanup? cleanup), ("span", ofPosition p)]
  | .throw value p => .tuple "Throw" [value.listing, ofPosition p]
  | .function d => .tuple "Function" [d.listing]

def listHandler? : Option Handler → Listing
  | some ⟨param, body, p⟩ =>
    .tuple "Some" [.fields "CatchClause" [("param", ofText param),
      ("body", .list (listStmts body)), ("span", ofPosition p)]]
  | none => .atom "None"

def listCleanup? : Option (List Stmt) → Listing
  | some stmts => .tuple "Some" [.list (listStmts stmts)]
  | none => .atom "None"

def listExpr? : Option Expr → Listing
  | some value => .tuple "Some" [value.listing]
  | none => .atom "None"

def listStmt? : Option Stmt → Listing
  | some stmt => .tuple "Some" [stmt.listing]
  | none => .atom "None"

def listExprs : List Expr → List Listing
  | [] => []
  | e :: rest => e.listing :: listExprs rest

def listEntries : List (String × Expr) → List Listing
  | [] => []
  | (key, e) :: rest => .tuple "" [ofText key, e.listing] :: listEntries rest

def listStmts : List Stmt → List Listing
  | [] => []
  | s :: rest => s.listing :: listStmts rest

end

end Quill
