import Quill.Position

/-!
# Diagnostics

What can be wrong with a source text, and where. A fault is a cause; its code and its wording follow
from it. The codes that begin with `L` are lexical, those that begin with `P` syntactic.
-/

set_option autoImplicit false

namespace Quill

/-- The families of faults. -/
inductive FaultCode
  | unexpectedCharacter
  | unterminatedString
  | unexpectedToken
  | missingToken
  | invalidTarget
  | bareTry
deriving DecidableEq, Repr

namespace FaultCode

/-- The code as it is written. -/
def label : FaultCode → String
  | .unexpectedCharacter => "L001"
  | .unterminatedString => "L002"
  | .unexpectedToken => "P001"
  | .missingToken => "P002"
  | .invalidTarget => "P003"
  | .bareTry => "P004"

/-- The fault was found while cutting the text into tokens. -/
def isLexical : FaultCode → Bool
  | .unexpectedCharacter | .unterminatedString => true
  | _ => false

end FaultCode

/-- What can nest too deeply. -/
inductive Nesting
  | statements
  | expression
deriving DecidableEq, Repr

/-- The causes. Where a token is found in place of another, `found` is its display. -/
inductive Fault
  /-- A character that begins no token. -/
  | strayCharacter (c : Char)
  /-- One of the characters that only occur doubled. -/
  | undoubled (c : Char)
  /-- A string without its closing quote, by the place of its opening one. -/
  | unterminatedString (start : Position)
  /-- A token that cannot begin what has to come. -/
  | unexpected (wanted found : String)
  /-- Another token where one particular token has to stand. -/
  | missing (wanted found : String)
  /-- A property of an object literal that begins with neither a name, a string nor a number. -/
  | propertyName
  /-- Nesting beyond the limit. -/
  | tooDeep (what : Nesting)
  /-- An assignment to something that cannot be written. -/
  | invalidTarget
  /-- A `try` without `catch` and `finally`. -/
  | bareTry
deriving DecidableEq, Repr

namespace Fault

/-- The code of a fault. -/
def code : Fault → FaultCode
  | .strayCharacter _ | .undoubled _ => .unexpectedCharacter
  | .unterminatedString _ => .unterminatedString
  | .unexpected _ _ | .propertyName | .tooDeep _ => .unexpectedToken
  | .missing _ _ => .missingToken
  | .invalidTarget => .invalidTarget
  | .bareTry => .bareTry

/-- What is said about a fault. -/
def message : Fault → String
  | .strayCharacter c => "Unexpected character '" ++ c.toString ++ "'"
  | .undoubled c =>
    "Unexpected character '" ++ c.toString ++ "'. Did you mean '" ++ c.toString ++ c.toString ++ "'?"
  | .unterminatedString start =>
    "Unterminated string starting at " ++ toString start.line ++ ":" ++ toString start.column
  | .unexpected wanted found | .missing wanted found =>
    "Expected " ++ wanted ++ " but found " ++ found
  | .propertyName => "Expected property name in object literal"
  | .tooDeep .statements => "Statements nested too deeply"
  | .tooDeep .expression => "Expression nested too deeply"
  | .invalidTarget => "Invalid assignment target"
  | .bareTry => "Expected 'catch' or 'finally' after try block"

end Fault

/-- A fault and its place. -/
structure Diagnostic where
  fault : Fault
  position : Position
deriving DecidableEq, Repr

namespace Diagnostic

/-- The code of a diagnostic. -/
def code (d : Diagnostic) : FaultCode := d.fault.code

/-- What a diagnostic says, without its place. -/
def message (d : Diagnostic) : String := d.fault.message

/-- The diagnostic in one line. -/
def display (d : Diagnostic) : String :=
  "[" ++ d.code.label ++ "] line " ++ toString d.position.line ++ ", column " ++
    toString d.position.column ++ ": " ++ d.message

end Diagnostic

end Quill
