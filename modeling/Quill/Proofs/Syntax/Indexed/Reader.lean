import Quill.Syntax.Program

/-!
# Reading tokens by index

The grammar once more, as it runs over an array: the reader is an index into the tokens and a
counter of the counted rules that are open. Nothing here is safe by its type. An index may lie
outside the array, a counter may be taken below zero, a step may lead past an end of input, a
repetition may find no end. Each of these is checked where it could happen, and what the check finds
is a `Breach`, apart from the faults of the text that is read.

The primitives are in this module and the rules in the next. That no breach ever happens, and that
the answers are those of the cursor, is proved after them.
-/

set_option autoImplicit false

namespace Quill.Syntax.Indexed

/-- What must not happen, whatever the tokens are. -/
inductive Breach
  /-- A token was read outside the array. -/
  | outOfBounds
  /-- The index was moved past an end of input. -/
  | pastEnd
  /-- A counter was lowered at zero. -/
  | underflow
  /-- A counted rule was open between two statements of the program. -/
  | openRules
  /-- A repetition or a chain of counted rules outlasted its bound. -/
  | outOfFuel
deriving DecidableEq, Repr

/-- Why a rule stops: a fault of the text, or a breach. -/
inductive Stop
  | fault (d : Diagnostic)
  | breach (b : Breach)

/-- A place in an array of tokens, and how many counted rules are open there. -/
structure Reader where
  tokens : Array Token
  index : Nat
  depth : Nat

/-- A rule of the grammar. -/
abbrev Read := EStateM Stop Reader

variable {α : Type}

/-- Stops at a breach. -/
def breach (b : Breach) : Read α := throw (.breach b)

/-- The token at a place of the array. -/
def tokenAt (i : Nat) : Read Token := do
  match (← get).tokens[i]? with
  | some t => return t
  | none => breach .outOfBounds

/-- The token at the index. -/
def peek : Read Token := do tokenAt (← get).index

/-- The kind of the token at the index. -/
def kind : Read TokenKind := return (← peek).kind

/-- The place of the token at the index. -/
def position : Read Position := return (← peek).position

/-- The kind of the token `n` places further, or of the last one. -/
def kindAt (n : Nat) : Read TokenKind := do
  let s ← get
  if s.tokens.size = 0 then breach .underflow
  else return (← tokenAt (min (s.index + n) (s.tokens.size - 1))).kind

/-- The token at the index is on the line of the one before it. -/
def onPreviousLine : Read Bool := do
  let i := (← get).index
  if i = 0 then return false
  else return (← tokenAt (i - 1)).line == (← peek).line

/-- Passes the token at the index; only the last token of the array stays. -/
def advance : Read Token := do
  let token ← peek
  let s ← get
  if s.index + 1 < s.tokens.size then
    if token.kind = .eof then breach .pastEnd else set { s with index := s.index + 1 }
  return token

/-- The token at the index is of the given kind. -/
def check (wanted : TokenKind) : Read Bool := return (← kind) == wanted

/-- The token at the index is an end of input. -/
def atEnd : Read Bool := check .eof

/-- Passes a token of the given kind, if it is there. -/
def accept (wanted : TokenKind) : Read Bool := do
  if ← check wanted then
    let _ ← advance
    return true
  else return false

/-- Fails with a fault at a position. -/
def failAt (position : Position) (fault : Fault) : Read α := throw (.fault ⟨fault, position⟩)

/-- Passes a token of the given kind, which has to be there. -/
def expect (kind : TokenKind) (wanted : String) : Read Unit := do
  if ← check kind then
    let _ ← advance
  else
    let token ← peek
    failAt token.position (.missing wanted token.display)

/-- The token at the index cannot begin what is wanted. -/
def unexpected (wanted : String) : Read α := do
  let token ← peek
  failAt token.position (.unexpected wanted token.display)

/-- A name. -/
def identifier : Read String := do
  match ← kind with
  | .ident name => do
    let _ ← advance
    return name
  | _ => unexpected "identifier"

/-- The name of a property after a point, where reserved words are names too. -/
def propertyName : Read String := do
  match ← kind with
  | .ident name => do
    let _ ← advance
    return name
  | kind => if kind.isKeyword then return (← advance).text else unexpected "property name"

/-! ## Looking for an arrow -/

/-- The tokens up to the parenthesis that closes the first one are followed by an arrow. The number
of open parentheses is counted, and the end of input ends the search. -/
def scanArrow : Nat → List Token → Read Bool
  | _, [] => return false
  | opened, t :: ts =>
    match t.kind with
    | .symbol .leftParen => scanArrow (opened + 1) ts
    | .symbol .rightParen =>
      match opened with
      | 0 => breach .underflow
      | 1 => return ts.head?.map (·.kind) == some (.symbol .arrow)
      | opened + 1 => scanArrow opened ts
    | .eof => return false
    | _ => scanArrow opened ts

/-- The parenthesis at the index opens the parameters of an arrow function. -/
def arrowStart : Read Bool := do
  let s ← get
  scanArrow 0 (s.tokens.toList.drop s.index)

/-! ## Repetition

Every repetition gets as many passes as there are tokens in the array. -/

/-- Goes on from a value as long as there is more of it. -/
def extendWithin (more : α → Read (Option α)) : Nat → α → Read α
  | 0, _ => breach .outOfFuel
  | fuel + 1, x => do
    match ← more x with
    | none => pure x
    | some y => extendWithin more fuel y

/-- Goes on from a value, with a pass for every token. -/
def extend (more : α → Read (Option α)) (x : α) : Read α := do
  extendWithin more (← get).tokens.size x

/-- Items with commas between them, after those already there. -/
def commaListWithin (close : Symbol) (item : Read α) : Nat → List α → Read (List α)
  | 0, _ => breach .outOfFuel
  | fuel + 1, done => do
    if (← check (.symbol close)) || (← atEnd) then pure done.reverse
    else
      let x ← item
      if ← accept (.symbol .comma) then commaListWithin close item fuel (x :: done)
      else pure (x :: done).reverse

/-- Items with commas between them, up to the closing symbol, with a pass for every token. -/
def commaList (close : Symbol) (item : Read α) : Read (List α) := do
  commaListWithin close item (← get).tokens.size []

/-! ## Counted rules -/

/-- Lowers the counter of open rules before a result is handed on. -/
def leave (result : Reader → EStateM.Result Stop Reader α) (s : Reader) :
    EStateM.Result Stop Reader α :=
  match s.depth with
  | 0 => .error (.breach .underflow) s
  | depth + 1 => result { s with depth }

/-- Runs a counted rule. The counter goes up before it and down after it, whether it succeeds or
fails. -/
def nested (what : Nesting) (rule : Read α) : Read α := fun s =>
  if maxNesting ≤ s.depth then (do failAt (← position) (.tooDeep what) : Read α) s
  else
    match rule { s with depth := s.depth + 1 } with
    | .ok a s' => leave (.ok a) s'
    | .error (.fault d) s' => leave (.error (.fault d)) s'
    | .error (.breach b) s' => .error (.breach b) s'

end Quill.Syntax.Indexed
