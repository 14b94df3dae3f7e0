import Quill.Diagnostic
import Quill.Token.Slice

/-!
# From text to tokens

The slices of a source are given their places, and from the placed slices both answers are read off:
the tokens, closed by one end-of-input token, and the diagnostics. A slice that is at fault is
reported and also leaves an error token, so a fault never stops the cutting.
-/

set_option autoImplicit false

namespace Quill

/-- A slice in its place. -/
structure Piece where
  text : List Char
  position : Position
deriving DecidableEq, Repr

namespace Piece

/-- What the slice spells. -/
def lexeme (p : Piece) : Lexeme := .ofSlice p.text

/-- What is wrong with the slice. -/
def fault? (p : Piece) : Option Fault :=
  match p.lexeme with
  | .strayCharacter c => some (.strayCharacter c)
  | .undoubled c => some (.undoubled c)
  | .unterminatedString => some (.unterminatedString p.position)
  | .trivia | .token _ => none

/-- The token that the slice stands for. The text of an error token is its message. -/
def token? (p : Piece) : Option Token :=
  match p.lexeme, p.fault? with
  | .token kind, _ => some ⟨kind, String.ofList p.text, p.position⟩
  | _, some fault => some ⟨.error fault.message, fault.message, p.position⟩
  | _, none => none

/-- The fault of a slice that has one, with its place. -/
def diagnostic? (p : Piece) : Option Diagnostic := p.fault?.map (⟨·, p.position⟩)

/-- Slices that follow one another from a place on. -/
def place (start : Position) : List (List Char) → List Piece
  | [] => []
  | text :: more => ⟨text, start⟩ :: place (start.advance text) more

end Piece

/-- The placed slices of a source. -/
def pieces (source : String) : List Piece := Piece.place .start (Slice.slices source.toList)

/-- The token that closes the tokens of a source. -/
def endOfInput (source : String) : Token :=
  ⟨.eof, "", Position.start.advance source.toList⟩

/-- Tokens and diagnostics. -/
structure Lexed where
  tokens : List Token
  diagnostics : List Diagnostic
deriving DecidableEq, Repr

/-- The tokens of a source, and all that is wrong with its characters. -/
def tokenize (source : String) : Lexed where
  tokens := (pieces source).filterMap Piece.token? ++ [endOfInput source]
  diagnostics := (pieces source).filterMap Piece.diagnostic?

end Quill
