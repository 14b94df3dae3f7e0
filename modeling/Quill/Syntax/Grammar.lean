import Quill.Number.Text
import Quill.Syntax.Cursor
import Quill.Syntax.Tree

/-!
# The grammar

Recursive descent, one function for each rule. A rule that contains itself, at whatever distance,
does so through one of four rules: statement, assignment, the alternative of a conditional, and the
operand of an operator in front. These are counted, and at most `maxNesting` of them can be open at
a time. The count is also what makes the grammar a total function: `Rules` holds the four rules as
they stand one level deeper, every function here is an ordinary function of those, and
`Rules.atDepth` ties the knot by recursion on the levels left.
-/

set_option autoImplicit false

namespace Quill.Syntax

/-- How many counted rules may be open at a time. -/
def maxNesting : Nat := 200

/-- The four counted rules one level deeper, and the bound on repetitions. -/
structure Rules where
  /-- At least the number of tokens. -/
  passes : Nat
  stmt : Parse Stmt
  assignment : Parse Expr
  ternary : Parse Expr
  unary : Parse Expr

/-! ## Operators between operands -/

/-- An operator that stands between two operands. -/
inductive InfixOp
  | binary (op : BinaryOp)
  | logical (op : LogicalOp)
deriving DecidableEq, Repr

/-- The expression with two operands, which begins where the left one does. -/
def InfixOp.apply (op : InfixOp) (left right : Expr) : Expr :=
  match op with
  | binary op => .binary op left right left.position
  | logical op => .logical op left right left.position

/-- The operators between operands, those that bind least first. Those of a row bind alike and
associate to the left. -/
def infixRows : List (List (Symbol × InfixOp)) :=
  [[(.orOr, .logical .or)],
    [(.andAnd, .logical .and)],
    [(.equal, .binary .eq), (.notEqual, .binary .notEq)],
    [(.less, .binary .lt), (.lessEqual, .binary .ltEq), (.greater, .binary .gt),
      (.greaterEqual, .binary .gtEq)],
    [(.plus, .binary .add), (.minus, .binary .sub)],
    [(.star, .binary .mul), (.slash, .binary .div), (.percent, .binary .mod)]]

/-- The operator of a row that a token spells. -/
def infixOp? (row : List (Symbol × InfixOp)) : TokenKind → Option InfixOp
  | .symbol sym => row.lookup sym
  | _ => none

/-- The operator of an assignment that also computes. -/
def compoundOp? : TokenKind → Option BinaryOp
  | .symbol .plusAssign => some .add
  | .symbol .minusAssign => some .sub
  | .symbol .starAssign => some .mul
  | .symbol .slashAssign => some .div
  | _ => none

/-- The operator that adds or takes away one. -/
def updateOp? : TokenKind → Option UpdateOp
  | .symbol .plusPlus => some .increment
  | .symbol .minusMinus => some .decrement
  | _ => none

/-- The parenthesis at the beginning of the tokens closes in front of an arrow. -/
def arrowAhead : Nat → List Token → Bool
  | _, [] => false
  | depth, t :: ts =>
    match t.kind with
    | .symbol .leftParen => arrowAhead (depth + 1) ts
    | .symbol .rightParen =>
      if depth ≤ 1 then ts.head?.map (·.kind) == some (.symbol .arrow)
      else arrowAhead (depth - 1) ts
    | _ => arrowAhead depth ts

/-! ## Blocks and functions -/

/-- One more statement of a block, given those before it in reverse. -/
def blockItem (r : Rules) (done : List Stmt) : Parse (Option (List Stmt)) := do
  if (← check (.symbol .rightBrace)) || (← atEnd) then return none
  else if ← accept (.symbol .semicolon) then return some done
  else
    let stmt ← r.stmt
    return some (stmt :: done)

/-- Statements between braces. -/
def block (r : Rules) : Parse (List Stmt) := do
  expect (.symbol .leftBrace) r"'{'"
  let done ← extend (blockItem r) r.passes []
  expect (.symbol .rightBrace) r"'}' after block"
  return done.reverse

/-- The parameters of a function, without their parentheses. -/
def params (r : Rules) : Parse (List String) := commaList .rightParen identifier r.passes []

/-- Parameters and body of a `function`. -/
def functionRest (r : Rules) (name : Option String) (position : Position) : Parse FunctionDef := do
  expect (.symbol .leftParen) "'(' before parameters"
  let ps ← params r
  expect (.symbol .rightParen) "')' after parameters"
  let body ← block r
  return { name, params := ps, body := .block body, position }

/-- What follows an arrow: a block or one expression. -/
def arrowBody (r : Rules) : Parse FunctionBody := do
  if ← check (.symbol .leftBrace) then return .block (← block r)
  else return .expr (← r.assignment)

/-- An arrow function with its parameters in parentheses. -/
def arrowFunction (r : Rules) : Parse Expr := do
  let position := (← peek).position
  expect (.symbol .leftParen) "'('"
  let ps ← params r
  expect (.symbol .rightParen) "')' after parameters"
  expect (.symbol .arrow) "'=>'"
  let body ← arrowBody r
  return .function { name := none, params := ps, body, position }

/-! ## Expressions -/

/-- The key that a token spells in an object literal. -/
def propertyKey? (token : Token) : Option String :=
  match token.kind with
  | .ident name => some name
  | .string value => some value
  | .number value => some value.keyText
  | kind => if kind.isKeyword then some token.text else none

/-- One entry of an object literal. A name alone stands for the variable of that name. -/
def property (r : Rules) : Parse (String × Expr) := do
  let token ← advance
  match propertyKey? token with
  | none => failAt token.position .propertyName
  | some key =>
    if token.kind.isName && ((← check (.symbol .comma)) || (← check (.symbol .rightBrace))) then
      return (key, .ident key token.position)
    else
      expect (.symbol .colon) "':' after property name"
      return (key, ← r.assignment)

/-- Entries between braces. -/
def objectLiteral (r : Rules) : Parse Expr := do
  let position := (← peek).position
  expect (.symbol .leftBrace) r"'{'"
  let entries ← commaList .rightBrace (property r) r.passes []
  expect (.symbol .rightBrace) r"'}' after object literal"
  return .object entries position

/-- Elements between brackets. -/
def arrayLiteral (r : Rules) : Parse Expr := do
  let token ← advance
  let items ← commaList .rightBracket r.assignment r.passes []
  expect (.symbol .rightBracket) "']' after array elements"
  return .array items token.position

/-- A parenthesis opens the parameters of an arrow function or groups an expression. -/
def parenthesized (r : Rules) : Parse Expr := do
  if arrowAhead 0 (← get).rest then arrowFunction r
  else
    let _ ← advance
    let inner ← r.assignment
    expect (.symbol .rightParen) "')' after expression"
    return inner

/-- A name is a variable or the only parameter of an arrow function. -/
def nameOrArrow (r : Rules) (name : String) : Parse Expr := do
  let token ← advance
  if ← accept (.symbol .arrow) then
    let body ← arrowBody r
    return .function { name := none, params := [name], body, position := token.position }
  else return .ident name token.position

/-- A `function` in an expression, with or without a name. -/
def functionExpr (r : Rules) : Parse Expr := do
  let token ← advance
  match (← peek).kind with
  | .ident name => do
    let _ ← advance
    return .function (← functionRest r (some name) token.position)
  | _ => return .function (← functionRest r none token.position)

/-- An expression that needs no operator. -/
def primary (r : Rules) : Parse Expr := do
  let token ← peek
  match token.kind with
  | .number value => do
    let _ ← advance
    return .number value token.position
  | .string value => do
    let _ ← advance
    return .string value token.position
  | .bool value => do
    let _ ← advance
    return .bool value token.position
  | .null => do
    let _ ← advance
    return .null token.position
  | .ident name => nameOrArrow r name
  | .symbol .leftParen => parenthesized r
  | .symbol .leftBracket => arrayLiteral r
  | .symbol .leftBrace => objectLiteral r
  | .keyword .functionKw => functionExpr r
  | _ => unexpected "expression"

/-- What may follow an operand directly: arguments, a member, an index, or an update on the line of
the operand. -/
def suffix (r : Rules) (operand : Expr) : Parse (Option Expr) := do
  let token ← peek
  match token.kind with
  | .symbol .leftParen => do
    let _ ← advance
    let args ← commaList .rightParen r.assignment r.passes []
    expect (.symbol .rightParen) "')' after arguments"
    return some (.call operand args operand.position)
  | .symbol .dot => do
    let _ ← advance
    return some (.member operand (← propertyName) false operand.position)
  | .symbol .questionDot => do
    let _ ← advance
    return some (.member operand (← propertyName) true operand.position)
  | .symbol .leftBracket => do
    let _ ← advance
    let index ← r.assignment
    expect (.symbol .rightBracket) "']' after index"
    return some (.index operand index operand.position)
  | kind =>
    match updateOp? kind with
    | some op =>
      if (← get).onPreviousLine then do
        let _ ← advance
        return some (.update op false operand operand.position)
      else return none
    | none => return none

/-- An operand with all that follows it directly. -/
def suffixed (r : Rules) : Parse Expr := do
  let operand ← primary r
  extend (suffix r) r.passes operand

/-- Operators in front of an operand. What an update applies to is looked at when it runs. -/
def unaryRule (r : Rules) : Parse Expr := do
  let token ← peek
  match token.kind with
  | .symbol .minus => do
    let _ ← advance
    return .unary .neg (← r.unary) token.position
  | .symbol .bang => do
    let _ ← advance
    return .unary .not (← r.unary) token.position
  | kind =>
    match updateOp? kind with
    | some op => do
      let _ ← advance
      return .update op true (← r.unary) token.position
    | none => suffixed r

/-- One more operator of a row with its right operand. -/
def infixStep (row : List (Symbol × InfixOp)) (operand : Parse Expr) (left : Expr) :
    Parse (Option Expr) := do
  match infixOp? row (← peek).kind with
  | none => return none
  | some op =>
    let _ ← advance
    let right ← operand
    return some (op.apply left right)

/-- Operands with operators of the given rows between them. -/
def infixRule (r : Rules) : List (List (Symbol × InfixOp)) → Parse Expr
  | [] => unaryRule r
  | row :: tighter => do
    let first ← infixRule r tighter
    extend (infixStep row (infixRule r tighter)) r.passes first

/-- A conditional expression, or one without a condition. -/
def ternaryRule (r : Rules) : Parse Expr := do
  let condition ← infixRule r infixRows
  if ← accept (.symbol .question) then
    let whenTrue ← r.assignment
    expect (.symbol .colon) "':' in conditional expression"
    let whenFalse ← r.ternary
    return .ternary condition whenTrue whenFalse condition.position
  else return condition

/-- The rest of an assignment, after its target. -/
def assignmentRest (r : Rules) (target : Expr) (build : Expr → Expr) : Parse Expr := do
  let operator ← advance
  if target.isAssignable then return build (← r.assignment)
  else failAt operator.position .invalidTarget

/-- An assignment, which associates to the right, or an expression without one. -/
def assignmentRule (r : Rules) : Parse Expr := do
  let target ← ternaryRule r
  let kind := (← peek).kind
  if kind = .symbol .assign then
    assignmentRest r target (.assign target · target.position)
  else
    match compoundOp? kind with
    | some op => assignmentRest r target (.compound op target · target.position)
    | none => return target

/-! ## Statements -/

/-- `let` or `const`, without a semicolon. A constant needs a value. -/
def declaration (r : Rules) : Parse Stmt := do
  let token ← advance
  let constant := token.kind == .keyword .constKw
  let name ← identifier
  if constant then
    expect (.symbol .assign) "'=' after constant name"
    return .declare name constant (some (← r.assignment)) token.position
  else if ← accept (.symbol .assign) then
    return .declare name constant (some (← r.assignment)) token.position
  else return .declare name constant none token.position

/-- The condition of a statement, in parentheses. -/
def condition (r : Rules) (word : Keyword) : Parse Expr := do
  expect (.symbol .leftParen) ("'(' after '" ++ word.spelling ++ "'")
  let value ← r.assignment
  expect (.symbol .rightParen) "')' after condition"
  return value

/-- An `if`. An `else` belongs to the nearest one before it. -/
def ifRule (r : Rules) : Parse Stmt := do
  let token ← advance
  let test ← condition r .ifKw
  let whenTrue ← r.stmt
  if ← accept (.keyword .elseKw) then
    return .ifElse test whenTrue (some (← r.stmt)) token.position
  else return .ifElse test whenTrue none token.position

/-- A `while`. -/
def whileRule (r : Rules) : Parse Stmt := do
  let token ← advance
  let test ← condition r .whileKw
  return .whileLoop test (← r.stmt) token.position

/-- A `do` with its `while`. -/
def doRule (r : Rules) : Parse Stmt := do
  let token ← advance
  let body ← r.stmt
  expect (.keyword .whileKw) "'while' after do body"
  return .doWhile body (← condition r .whileKw) token.position

/-- The kind of a `for` over a container, when the tokens after the parenthesis begin one. -/
def traversalAhead? (c : Cursor) : Option Traversal :=
  match c.kindAt 0, c.kindAt 1, c.kindAt 2 with
  | .keyword .letKw, .ident _, .keyword .ofKw | .keyword .constKw, .ident _, .keyword .ofKw =>
    some .elements
  | .keyword .letKw, .ident _, .keyword .inKw | .keyword .constKw, .ident _, .keyword .inKw =>
    some .indices
  | _, _, _ => none

/-- A `for` over a container, after its parenthesis. -/
def forEachRest (r : Rules) (traversal : Traversal) (position : Position) : Parse Stmt := do
  let constant := (← advance).kind == .keyword .constKw
  let name ← identifier
  let _ ← advance
  let subject ← r.assignment
  expect (.symbol .rightParen) "')' after for-each iterable"
  return .forEach name constant traversal subject (← r.stmt) position

/-- The first part of a counting `for`. -/
def loopInit (r : Rules) : Parse (Option Stmt) := do
  match (← peek).kind with
  | .symbol .semicolon => return none
  | .keyword .letKw | .keyword .constKw => return some (← declaration r)
  | _ => return some (.expr (← r.assignment))

/-- A part of a counting `for` that may be left out in front of a symbol. -/
def unlessAt (sym : Symbol) (rule : Parse Expr) : Parse (Option Expr) := do
  if ← check (.symbol sym) then return none else return some (← rule)

/-- A counting `for`, after its parenthesis. -/
def forRest (r : Rules) (position : Position) : Parse Stmt := do
  let init ← loopInit r
  expect (.symbol .semicolon) "';' after loop initializer"
  let test ← unlessAt .semicolon r.assignment
  expect (.symbol .semicolon) "';' after loop condition"
  let update ← unlessAt .rightParen r.assignment
  expect (.symbol .rightParen) "')' after for clauses"
  return .forLoop init test update (← r.stmt) position

/-- A `for` of either kind, told apart by the tokens after the parenthesis. -/
def forRule (r : Rules) : Parse Stmt := do
  let token ← advance
  expect (.symbol .leftParen) "'(' after 'for'"
  match traversalAhead? (← get) with
  | some traversal => forEachRest r traversal token.position
  | none => forRest r token.position

/-- The `catch` of a `try`, if there is one. -/
def handler (r : Rules) : Parse (Option Handler) := do
  let token ← peek
  if ← accept (.keyword .catchKw) then
    expect (.symbol .leftParen) "'(' after 'catch'"
    let param ← identifier
    expect (.symbol .rightParen) "')' after catch parameter"
    let body ← block r
    return some { param, body, position := token.position }
  else return none

/-- The `finally` of a `try`, if there is one. -/
def cleanup (r : Rules) : Parse (Option (List Stmt)) := do
  if ← accept (.keyword .finallyKw) then return some (← block r) else return none

/-- A `try`, which needs a `catch` or a `finally`. -/
def tryRule (r : Rules) : Parse Stmt := do
  let token ← advance
  let body ← block r
  let onError ← handler r
  let always ← cleanup r
  if onError.isNone && always.isNone then failAt token.position .bareTry
  else return .tryCatch body onError always token.position

/-- A `return` has no value in front of the end of a statement or the beginning of the next. -/
def returnRule (r : Rules) : Parse Stmt := do
  let token ← advance
  let kind := (← peek).kind
  let bare := kind == .symbol .semicolon || kind == .symbol .rightBrace || kind == .eof ||
    kind.startsStatement
  if bare then return .ret none token.position
  else return .ret (some (← r.assignment)) token.position

/-- A `throw`. -/
def throwRule (r : Rules) : Parse Stmt := do
  let token ← advance
  return .throw (← r.assignment) token.position

/-- A `function` statement, which has a name. -/
def functionStmt (r : Rules) : Parse Stmt := do
  let token ← advance
  let name ← identifier
  return .function (← functionRest r (some name) token.position)

/-- A statement that a semicolon may end. -/
def ended (rule : Parse Stmt) : Parse Stmt := do
  let stmt ← rule
  let _ ← accept (.symbol .semicolon)
  return stmt

/-- An expression as a statement. -/
def exprStmt (r : Rules) : Parse Stmt := return .expr (← r.assignment)

/-- A statement, told by its first token; a `function` without a name is an expression. -/
def stmtRule (r : Rules) : Parse Stmt := do
  let token ← peek
  match token.kind with
  | .keyword .letKw | .keyword .constKw => ended (declaration r)
  | .keyword .ifKw => ifRule r
  | .keyword .whileKw => whileRule r
  | .keyword .doKw => ended (doRule r)
  | .keyword .forKw => forRule r
  | .keyword .tryKw => tryRule r
  | .keyword .returnKw => ended (returnRule r)
  | .keyword .throwKw => ended (throwRule r)
  | .keyword .breakKw => ended do
    let _ ← advance
    return .breakLoop token.position
  | .keyword .continueKw => ended do
    let _ ← advance
    return .continueLoop token.position
  | .symbol .leftBrace => return .block (← block r) token.position
  | .keyword .functionKw =>
    match (← get).kindAt 1 with
    | .ident _ => functionStmt r
    | _ => ended (exprStmt r)
  | _ => ended (exprStmt r)

/-! ## The knot -/

/-- A counted rule beyond the last level. -/
def tooDeep {α : Type} (what : Nesting) : Parse α := fun c =>
  .error ⟨.tooDeep what, c.current.position⟩ c

/-- The counted rules where `depth` levels are left. -/
def Rules.atDepth (passes : Nat) : Nat → Rules
  | 0 =>
    { passes
      stmt := tooDeep .statements
      assignment := tooDeep .expression
      ternary := tooDeep .expression
      unary := tooDeep .expression }
  | depth + 1 =>
    let deeper := Rules.atDepth passes depth
    { passes
      stmt := stmtRule deeper
      assignment := assignmentRule deeper
      ternary := ternaryRule deeper
      unary := unaryRule deeper }

end Quill.Syntax
