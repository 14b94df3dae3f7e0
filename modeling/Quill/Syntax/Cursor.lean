import Quill.Diagnostic
import Quill.Token

/-!
# The cursor

Parsing walks over the tokens before the first end of input. The cursor holds those that are left,
the place where the input ends, and the line of the token passed last, which decides whether `++`
after an operand belongs to it. A rule that fails leaves the cursor where it failed, and recovery
goes on from there.
-/

set_option autoImplicit false

namespace Quill.Syntax

/-- A place in a list of tokens. -/
structure Cursor where
  /-- The line of the token before the cursor. -/
  previousLine : Option Nat
  /-- The tokens from the cursor on, without the end of input. -/
  rest : List Token
  /-- Where the input ends. -/
  finish : Position
deriving Repr

namespace Cursor

/-- The cursor before a list of tokens. What follows the first end of input is not looked at; if
there is none, the input ends at the last token. -/
def ofTokens (tokens : List Token) : Cursor where
  previousLine := none
  rest := tokens.takeWhile (·.kind != .eof)
  finish :=
    match tokens.find? (·.kind == .eof) with
    | some eof => eof.position
    | none => (tokens.getLast?.map (·.position)).getD .start

/-- The token at the cursor, the end of input when none is left. -/
def current (c : Cursor) : Token := c.rest.headD ⟨.eof, "", c.finish⟩

/-- The kind of the token `n` places further. -/
def kindAt (c : Cursor) (n : Nat) : TokenKind := (c.rest[n]?.map (·.kind)).getD .eof

/-- One token further; the end of input is never passed. -/
def next (c : Cursor) : Cursor :=
  match c.rest with
  | [] => c
  | t :: ts => { c with previousLine := some t.line, rest := ts }

/-- No token is left. -/
def atEnd (c : Cursor) : Bool := c.rest.isEmpty

/-- The token at the cursor is on the line of the one before it. -/
def onPreviousLine (c : Cursor) : Bool := c.previousLine == some c.current.line

end Cursor

/-- A rule of the grammar. -/
abbrev Parse := EStateM Diagnostic Cursor

variable {α : Type}

/-- The token at the cursor. -/
def peek : Parse Token := fun c => .ok c.current c

/-- Passes the token at the cursor. -/
def advance : Parse Token := fun c => .ok c.current c.next

/-- Fails with a fault at a position, the cursor staying where it is. -/
def failAt (position : Position) (fault : Fault) : Parse α := throw ⟨fault, position⟩

/-- The token at the cursor is of the given kind. -/
def check (kind : TokenKind) : Parse Bool := fun c => .ok (c.current.kind == kind) c

/-- No token is left. -/
def atEnd : Parse Bool := fun c => .ok c.atEnd c

/-- Passes a token of the given kind, if it is there. -/
def accept (kind : TokenKind) : Parse Bool := fun c =>
  if c.current.kind = kind then .ok true c.next else .ok false c

/-- Passes a token of the given kind, which has to be there. -/
def expect (kind : TokenKind) (wanted : String) : Parse Unit := fun c =>
  if c.current.kind = kind then .ok () c.next
  else .error ⟨.missing wanted c.current.display, c.current.position⟩ c

/-- The token at the cursor cannot begin what is wanted. -/
def unexpected (wanted : String) : Parse α := fun c =>
  .error ⟨.unexpected wanted c.current.display, c.current.position⟩ c

/-- A name. -/
def identifier : Parse String := do
  match (← peek).kind with
  | .ident name => do
    let _ ← advance
    return name
  | _ => unexpected "identifier"

/-- The name of a property after a point, where reserved words are names too. -/
def propertyName : Parse String := do
  let token ← peek
  match token.kind with
  | .ident name => do
    let _ ← advance
    return name
  | kind =>
    if kind.isKeyword then do
      let _ ← advance
      return token.text
    else unexpected "property name"

/-! ## Repetition

A pass of a repetition that goes on has passed a token, so a bound that is at least the number of
tokens is never what ends it. -/

/-- Goes on from a value as long as there is more of it. -/
def extend (more : α → Parse (Option α)) : Nat → α → Parse α
  | 0, x => pure x
  | passes + 1, x => do
    match ← more x with
    | none => pure x
    | some y => extend more passes y

/-- Items with commas between them, up to the closing symbol. A comma may follow the last one. The
closing symbol itself is left to the caller. -/
def commaList (close : Symbol) (item : Parse α) : Nat → List α → Parse (List α)
  | 0, done => pure done.reverse
  | passes + 1, done => do
    if (← check (.symbol close)) || (← atEnd) then pure done.reverse
    else
      let x ← item
      if ← accept (.symbol .comma) then commaList close item passes (x :: done)
      else pure (x :: done).reverse

end Quill.Syntax
