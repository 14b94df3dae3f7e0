import Quill.Proofs.Syntax.Indexed.Reader

/-!
# The grammar by index

The rules over the indexed reader. They are the rules of the grammar, with its tables of operators
and its trees; what differs is how they reach the tokens and how they count. The counted rules go
through `nested`, so their count is a number that goes up and down. The knot is tied with fuel,
which a chain of counted rules cannot use up before the count stops it.
-/

set_option autoImplicit false

namespace Quill.Syntax.Indexed

variable {α : Type}

/-- The four counted rules. -/
structure Rules where
  stmt : Read Stmt
  assignment : Read Expr
  ternary : Read Expr
  unary : Read Expr

/-! ## Blocks and functions -/

def blockItem (r : Rules) (done : List Stmt) : Read (Option (List Stmt)) := do
  if (← check (.symbol .rightBrace)) || (← atEnd) then return none
  else if ← accept (.symbol .semicolon) then return some done
  else
    let stmt ← r.stmt
    return some (stmt :: done)

def block (r : Rules) : Read (List Stmt) := do
  expect (.symbol .leftBrace) r"'{'"
  let done ← extend (blockItem r) []
  expect (.symbol .rightBrace) r"'}' after block"
  return done.reverse

def params : Read (List String) := commaList .rightParen identifier

def functionRest (r : Rules) (name : Option String) (position : Position) : Read FunctionDef := do
  expect (.symbol .leftParen) "'(' before parameters"
  let ps ← params
  expect (.symbol .rightParen) "')' after parameters"
  let body ← block r
  return { name, params := ps, body := .block body, position }

def arrowBody (r : Rules) : Read FunctionBody := do
  if ← check (.symbol .leftBrace) then return .block (← block r)
  else return .expr (← r.assignment)

def arrowFunction (r : Rules) : Read Expr := do
  let position ← position
  expect (.symbol .leftParen) "'('"
  let ps ← params
  expect (.symbol .rightParen) "')' after parameters"
  expect (.symbol .arrow) "'=>'"
  let body ← arrowBody r
  return .function { name := none, params := ps, body, position }

/-! ## Expressions -/

def property (r : Rules) : Read (String × Expr) := do
  let token ← advance
  match propertyKey? token with
  | none => failAt token.position .propertyName
  | some key =>
    if token.kind.isName && ((← check (.symbol .comma)) || (← check (.symbol .rightBrace))) then
      return (key, .ident key token.position)
    else
      expect (.symbol .colon) "':' after property name"
      return (key, ← r.assignment)

def objectLiteral (r : Rules) : Read Expr := do
  let position ← position
  expect (.symbol .leftBrace) r"'{'"
  let entries ← commaList .rightBrace (property r)
  expect (.symbol .rightBrace) r"'}' after object literal"
  return .object entries position

def arrayLiteral (r : Rules) : Read Expr := do
  let token ← advance
  let items ← commaList .rightBracket r.assignment
  expect (.symbol .rightBracket) "']' after array elements"
  return .array items token.position

def parenthesized (r : Rules) : Read Expr := do
  if ← arrowStart then arrowFunction r
  else
    let _ ← advance
    let inner ← r.assignment
    expect (.symbol .rightParen) "')' after expression"
    return inner

def nameOrArrow (r : Rules) (name : String) : Read Expr := do
  let token ← advance
  if ← accept (.symbol .arrow) then
    let body ← arrowBody r
    return .function { name := none, params := [name], body, position := token.position }
  else return .ident name token.position

def functionExpr (r : Rules) : Read Expr := do
  let token ← advance
  match ← kind with
  | .ident name => do
    let _ ← advance
    return .function (← functionRest r (some name) token.position)
  | _ => return .function (← functionRest r none token.position)

def primary (r : Rules) : Read Expr := do
  let position ← position
  match ← kind with
  | .number value => do
    let _ ← advance
    return .number value position
  | .string value => do
    let _ ← advance
    return .string value position
  | .bool value => do
    let _ ← advance
    return .bool value position
  | .null => do
    let _ ← advance
    return .null position
  | .ident name => nameOrArrow r name
  | .symbol .leftParen => parenthesized r
  | .symbol .leftBracket => arrayLiteral r
  | .symbol .leftBrace => objectLiteral r
  | .keyword .functionKw => functionExpr r
  | _ => unexpected "expression"

def suffix (r : Rules) (operand : Expr) : Read (Option Expr) := do
  match ← kind with
  | .symbol .leftParen => do
    let _ ← advance
    let args ← commaList .rightParen r.assignment
    expect (.symbol .rightParen) "')' after arguments"
    return some (.call operand args operand.position)
  | .symbol .dot => do
    let _ ← advance
    return some (.member operand (← propertyName) false operand.position)
  | .symbol .questionDot => do
    let _ ← advance
    return some (.member operand (← propertyName) true operand.position)
  | .symbol .leftBracket => do
    let _ ← advance
    let index ← r.assignment
    expect (.symbol .rightBracket) "']' after index"
    return some (.index operand index operand.position)
  | kind =>
    match updateOp? kind with
    | some op =>
      if ← onPreviousLine then do
        let _ ← advance
        return some (.update op false operand operand.position)
      else return none
    | none => return none

def suffixed (r : Rules) : Read Expr := do
  let operand ← primary r
  extend (suffix r) operand

def unaryRule (r : Rules) : Read Expr := do
  let position ← position
  match ← kind with
  | .symbol .minus => do
    let _ ← advance
    return .unary .neg (← r.unary) position
  | .symbol .bang => do
    let _ ← advance
    return .unary .not (← r.unary) position
  | kind =>
    match updateOp? kind with
    | some op => do
      let _ ← advance
      return .update op true (← r.unary) position
    | none => suffixed r

def infixStep (row : List (Symbol × InfixOp)) (operand : Read Expr) (left : Expr) :
    Read (Option Expr) := do
  match infixOp? row (← kind) with
  | none => return none
  | some op =>
    let _ ← advance
    let right ← operand
    return some (op.apply left right)

def infixRule (r : Rules) : List (List (Symbol × InfixOp)) → Read Expr
  | [] => unaryRule r
  | row :: tighter => do
    let first ← infixRule r tighter
    extend (infixStep row (infixRule r tighter)) first

def ternaryRule (r : Rules) : Read Expr := do
  let condition ← infixRule r infixRows
  if ← accept (.symbol .question) then
    let whenTrue ← r.assignment
    expect (.symbol .colon) "':' in conditional expression"
    let whenFalse ← r.ternary
    return .ternary condition whenTrue whenFalse condition.position
  else return condition

def assignmentRest (r : Rules) (target : Expr) (build : Expr → Expr) : Read Expr := do
  let operator ← advance
  if target.isAssignable then return build (← r.assignment)
  else failAt operator.position .invalidTarget

def assignmentRule (r : Rules) : Read Expr := do
  let target ← ternaryRule r
  let kind ← kind
  if kind = .symbol .assign then
    assignmentRest r target (.assign target · target.position)
  else
    match compoundOp? kind with
    | some op => assignmentRest r target (.compound op target · target.position)
    | none => return target

/-! ## Statements -/

def declaration (r : Rules) : Read Stmt := do
  let token ← advance
  let constant := token.kind == .keyword .constKw
  let name ← identifier
  if constant then
    expect (.symbol .assign) "'=' after constant name"
    return .declare name constant (some (← r.assignment)) token.position
  else if ← accept (.symbol .assign) then
    return .declare name constant (some (← r.assignment)) token.position
  else return .declare name constant none token.position

def condition (r : Rules) (word : Keyword) : Read Expr := do
  expect (.symbol .leftParen) ("'(' after '" ++ word.spelling ++ "'")
  let value ← r.assignment
  expect (.symbol .rightParen) "')' after condition"
  return value

def ifRule (r : Rules) : Read Stmt := do
  let token ← advance
  let test ← condition r .ifKw
  let whenTrue ← r.stmt
  if ← accept (.keyword .elseKw) then
    return .ifElse test whenTrue (some (← r.stmt)) token.position
  else return .ifElse test whenTrue none token.position

def whileRule (r : Rules) : Read Stmt := do
  let token ← advance
  let test ← condition r .whileKw
  return .whileLoop test (← r.stmt) token.position

def doRule (r : Rules) : Read Stmt := do
  let token ← advance
  let body ← r.stmt
  expect (.keyword .whileKw) "'while' after do body"
  return .doWhile body (← condition r .whileKw) token.position

/-- Looks at the second token only behind `let` or `const`, and at the third only behind a name. -/
def traversalAhead : Read (Option Traversal) := do
  let first ← kind
  if first = .keyword .letKw ∨ first = .keyword .constKw then
    if (← kindAt 1).isName then
      match ← kindAt 2 with
      | .keyword .ofKw => return some .elements
      | .keyword .inKw => return some .indices
      | _ => return none
    else return none
  else return none

def forEachRest (r : Rules) (traversal : Traversal) (position : Position) : Read Stmt := do
  let constant := (← advance).kind == .keyword .constKw
  let name ← identifier
  let _ ← advance
  let subject ← r.assignment
  expect (.symbol .rightParen) "')' after for-each iterable"
  return .forEach name constant traversal subject (← r.stmt) position

def loopInit (r : Rules) : Read (Option Stmt) := do
  match ← kind with
  | .symbol .semicolon => return none
  | .keyword .letKw | .keyword .constKw => return some (← declaration r)
  | _ => return some (.expr (← r.assignment))

def unlessAt (sym : Symbol) (rule : Read Expr) : Read (Option Expr) := do
  if ← check (.symbol sym) then return none else return some (← rule)

def forRest (r : Rules) (position : Position) : Read Stmt := do
  let init ← loopInit r
  expect (.symbol .semicolon) "';' after loop initializer"
  let test ← unlessAt .semicolon r.assignment
  expect (.symbol .semicolon) "';' after loop condition"
  let update ← unlessAt .rightParen r.assignment
  expect (.symbol .rightParen) "')' after for clauses"
  return .forLoop init test update (← r.stmt) position

def forRule (r : Rules) : Read Stmt := do
  let token ← advance
  expect (.symbol .leftParen) "'(' after 'for'"
  match ← traversalAhead with
  | some traversal => forEachRest r traversal token.position
  | none => forRest r token.position

def handler (r : Rules) : Read (Option Handler) := do
  let position ← position
  if ← accept (.keyword .catchKw) then
    expect (.symbol .leftParen) "'(' after 'catch'"
    let param ← identifier
    expect (.symbol .rightParen) "')' after catch parameter"
    let body ← block r
    return some { param, body, position }
  else return none

def cleanup (r : Rules) : Read (Option (List Stmt)) := do
  if ← accept (.keyword .finallyKw) then return some (← block r) else return none

def tryRule (r : Rules) : Read Stmt := do
  let token ← advance
  let body ← block r
  let onError ← handler r
  let always ← cleanup r
  if onError.isNone && always.isNone then failAt token.position .bareTry
  else return .tryCatch body onError always token.position

def returnRule (r : Rules) : Read Stmt := do
  let token ← advance
  let kind ← kind
  let bare := kind == .symbol .semicolon || kind == .symbol .rightBrace || kind == .eof ||
    kind.startsStatement
  if bare then return .ret none token.position
  else return .ret (some (← r.assignment)) token.position

def throwRule (r : Rules) : Read Stmt := do
  let token ← advance
  return .throw (← r.assignment) token.position

def functionStmt (r : Rules) : Read Stmt := do
  let token ← advance
  let name ← identifier
  return .function (← functionRest r (some name) token.position)

def ended (rule : Read Stmt) : Read Stmt := do
  let stmt ← rule
  let _ ← accept (.symbol .semicolon)
  return stmt

def exprStmt (r : Rules) : Read Stmt := return .expr (← r.assignment)

def stmtRule (r : Rules) : Read Stmt := do
  let position ← position
  match ← kind with
  | .keyword .letKw | .keyword .constKw => ended (declaration r)
  | .keyword .ifKw => ifRule r
  | .keyword .whileKw => whileRule r
  | .keyword .doKw => ended (doRule r)
  | .keyword .forKw => forRule r
  | .keyword .tryKw => tryRule r
  | .keyword .returnKw => ended (returnRule r)
  | .keyword .throwKw => ended (throwRule r)
  | .keyword .breakKw => ended do
    let _ ← advance
    return .breakLoop position
  | .keyword .continueKw => ended do
    let _ ← advance
    return .continueLoop position
  | .symbol .leftBrace => return .block (← block r) position
  | .keyword .functionKw =>
    match ← kindAt 1 with
    | .ident _ => functionStmt r
    | _ => ended (exprStmt r)
  | _ => ended (exprStmt r)

/-! ## The knot -/

/-- The counted rules, for chains of at most so many of them. -/
def Rules.within : Nat → Rules
  | 0 =>
    { stmt := breach .outOfFuel
      assignment := breach .outOfFuel
      ternary := breach .outOfFuel
      unary := breach .outOfFuel }
  | fuel + 1 =>
    let deeper := Rules.within fuel
    { stmt := nested .statements (stmtRule deeper)
      assignment := nested .expression (assignmentRule deeper)
      ternary := nested .expression (ternaryRule deeper)
      unary := nested .expression (unaryRule deeper) }

/-! ## Programs -/

/-- Passes tokens to after a semicolon, or to a word that begins a statement. -/
def skipWithin : Nat → Read Unit
  | 0 => breach .outOfFuel
  | fuel + 1 => do
    if ← atEnd then return
    else if (← kind).startsStatement then return
    else if (← advance).kind = .symbol .semicolon then return
    else skipWithin fuel

/-- Where to go on after a fault. The token at fault is always passed, unless the input ends. -/
def recover : Read Unit := do
  if ← atEnd then return
  else if (← advance).kind = .symbol .semicolon then return
  else skipWithin (← get).tokens.size

/-- A token is passed by all means if none was passed since an index. -/
def moveOnFrom (before : Nat) : Read Unit := do
  if (← get).index = before then
    let _ ← advance

/-- A fault of a rule as a value; a breach stays one. -/
def attempt (rule : Read α) : Read (Except Diagnostic α) := fun s =>
  match rule s with
  | .ok a s' => .ok (.ok a) s'
  | .error (.fault d) s' => .ok (.error d) s'
  | .error (.breach b) s' => .error (.breach b) s'

/-- The statements from the index on. No counted rule is open where one of them begins. -/
def statementsWithin (r : Rules) : Nat → Read Parsed
  | 0 => breach .outOfFuel
  | fuel + 1 => do
    if ← atEnd then return ⟨[], []⟩
    else if ← accept (.symbol .semicolon) then statementsWithin r fuel
    else
      let s ← get
      if s.depth ≠ 0 then breach .openRules
      match ← attempt r.stmt with
      | .ok stmt =>
        moveOnFrom s.index
        let more ← statementsWithin r fuel
        return ⟨stmt :: more.statements, more.diagnostics⟩
      | .error d =>
        recover
        moveOnFrom s.index
        let more ← statementsWithin r fuel
        return ⟨more.statements, d :: more.diagnostics⟩

/-- An end of input in the place of the last token. -/
def endOf (tokens : Array Token) : Token :=
  ⟨.eof, "", (tokens.back?.map (·.position)).getD .start⟩

/-- The reader before the first token. An end of input is added where the last token is none. -/
def Reader.ofTokens (tokens : Array Token) : Reader where
  tokens := if tokens.back?.any (·.kind == .eof) then tokens else tokens.push (endOf tokens)
  index := 0
  depth := 0

/-- The program that tokens spell and all that is wrong with it, or why there is none. A chain of
counted rules is one longer than the open ones may be, since the last is the one that is refused. -/
def parse (tokens : Array Token) : Except Stop Parsed :=
  let s := Reader.ofTokens tokens
  match statementsWithin (Rules.within (maxNesting + 1)) s.tokens.size s with
  | .ok parsed _ => .ok parsed
  | .error stop _ => .error stop

end Quill.Syntax.Indexed
