import Quill.Machine
import Quill.Text.Casing
import Quill.Text.Search

/-!
# Methods of strings

What the methods of strings compute. They change nothing; `split` makes a new array.
-/

set_option autoImplicit false

namespace Quill

/-- An argument; those that are missing are null. -/
def argument (args : List Value) (i : Nat) : Value := args[i]?.getD .null

/-- The text of an argument. -/
def argumentChars (args : List Value) (i : Nat) : List Char := (argument args i).toText.toList

/-- An argument as a bound; one that is missing or null stands for `otherwise`. -/
def boundOr (otherwise : Int) : Value → Int
  | .null => otherwise
  | v => v.toIndex

/-- An integer held between zero and a length. -/
def clampTo (length : Nat) (i : Int) : Nat := min i.toNat length

/-- The characters between two bounds, which are held inside the text and put in order. -/
def charsBetween (cs : List Char) (start stop : Int) : List Char :=
  let a := clampTo cs.length start
  let b := clampTo cs.length stop
  (cs.drop (min a b)).take (max a b - min a b)

/-- A position, or minus one. -/
def positionValue : Option Nat → Value
  | some i => .ofNat i
  | none => .number (Number.ofInt (-1))

/-- The value of a method that makes no array. -/
def StringMethod.value (method : StringMethod) (s : String) (args : List Value) : Value :=
  let cs := s.toList
  match method with
  | .toLowerCase => .ofChars (Text.lower cs)
  | .toUpperCase => .ofChars (Text.upper cs)
  | .trim => .ofChars (Text.trim cs)
  | .startsWith => .bool ((argumentChars args 0).isPrefixOf cs)
  | .endsWith => .bool ((argumentChars args 0).isSuffixOf cs)
  | .includes | .contains => .bool (Text.find? (argumentChars args 0) cs).isSome
  | .indexOf => positionValue (Text.find? (argumentChars args 0) cs)
  | .substring =>
    .ofChars (charsBetween cs (argument args 0).toIndex (boundOr cs.length (argument args 1)))
  | .replace => .ofChars (Text.replace (argumentChars args 0) (argumentChars args 1) cs)
  | .split => .null

/-- Calls a method of a string. -/
def StringMethod.call (method : StringMethod) (s : String) (args : List Value) : Run Value :=
  match method with
  | .split => Run.allocArray ((Text.split (argumentChars args 0) s.toList).map .ofChars).toArray
  | method => pure (method.value s args)

end Quill
