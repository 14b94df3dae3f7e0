import Quill.Number.Reading
import Quill.Token

/-!
# Slices

A source text is cut into slices: runs of white space, comments, and one slice for every token or
stray character. Cutting knows only how far a slice reaches (`reach`), so that the slices put
together are the text (`flatten_slices`); what a slice means (`Lexeme.ofSlice`) depends on the slice
alone and not on its neighbours.
-/

set_option autoImplicit false

namespace Quill

namespace Slice

/-! ## Characters -/

/-- White space between tokens. -/
def isSpace (c : Char) : Bool := c == ' ' || c == '\t' || c == '\r' || c == '\n'

/-- A string begins and ends with the same one of two quotes. -/
def isQuote (c : Char) : Bool := c == '"' || c == '\''

/-- Names begin with an ASCII letter, an underscore or a dollar sign. -/
def isNameStart (c : Char) : Bool := c.isAlpha || c == '_' || c == '$'

/-- Names go on with these and digits. -/
def isNamePart (c : Char) : Bool := isNameStart c || c.isDigit

/-! ## How far a slice reaches

Each function gives a number of characters, counted from the ones that follow what is already known
to belong to the slice. -/

/-- The length of the run of characters with property `p` at the beginning. -/
def run (p : Char → Bool) (cs : List Char) : Nat := (cs.takeWhile p).length

/-- To the end of the comment, where `depth` comments are open. Comments nest, and one that is never
closed reaches to the end of the text. -/
def commentReach : Nat → List Char → Nat
  | 0, _ => 0
  | _ + 1, [] => 0
  | depth + 1, '/' :: '*' :: cs => 2 + commentReach (depth + 2) cs
  | depth + 1, '*' :: '/' :: cs => 2 + commentReach depth cs
  | depth + 1, _ :: cs => 1 + commentReach (depth + 1) cs

/-- To the closing quote, which belongs to the slice. A backslash takes the next character with it,
and a string that is never closed reaches to the end of the text. -/
def stringReach (quote : Char) : List Char → Nat
  | [] => 0
  | [_] => 1
  | c :: d :: cs =>
    if c == quote then 1
    else if c == '\\' then 2 + stringReach quote cs
    else 1 + stringReach quote (d :: cs)

/-- A fraction needs a digit after its point. -/
def fractionReach : List Char → Nat
  | '.' :: d :: cs => if d.isDigit then 2 + run Char.isDigit cs else 0
  | _ => 0

/-- An exponent needs a digit after its mark and sign. -/
def exponentReach : List Char → Nat
  | mark :: d :: cs =>
    if mark == 'e' || mark == 'E' then
      if d.isDigit then 2 + run Char.isDigit cs
      else if d == '+' || d == '-' then
        match cs with
        | d' :: cs' => if d'.isDigit then 3 + run Char.isDigit cs' else 0
        | [] => 0
      else 0
    else 0
  | _ => 0

/-- To the end of a number, after its first digit. -/
def numberReach (cs : List Char) : Nat :=
  let whole := run Char.isDigit cs
  let fraction := fractionReach (cs.drop whole)
  whole + fraction + exponentReach (cs.drop (whole + fraction))

/-- A symbol of two characters is preferred to one of a single character, except that `?.` is not
one symbol in front of a digit. -/
def symbolReach (c : Char) : List Char → Nat
  | [] => 0
  | d :: cs =>
    if (Symbol.ofSpelling? [c, d]).isSome && !(c == '?' && cs.head?.any Char.isDigit) then 1 else 0

/-- How many of the characters `cs` belong to the slice that begins with `c`. -/
def reach (c : Char) (cs : List Char) : Nat :=
  if isSpace c then run isSpace cs
  else if c == '/' && cs.head? == some '/' then run (· != '\n') cs
  else if c == '/' && cs.head? == some '*' then 1 + commentReach 1 (cs.drop 1)
  else if isQuote c then stringReach c cs
  else if c.isDigit then numberReach cs
  else if isNameStart c then run isNamePart cs
  else symbolReach c cs

/-- The slices of a text, in order. -/
def slices : List Char → List (List Char)
  | [] => []
  | c :: cs => (c :: cs.take (reach c cs)) :: slices (cs.drop (reach c cs))
termination_by cs => cs.length
decreasing_by
  simp only [List.length_cons, List.length_drop]
  omega

/-- No character is lost, added or moved. -/
theorem flatten_slices (cs : List Char) : (slices cs).flatten = cs := by
  fun_induction slices cs with
  | case1 => rfl
  | case2 c cs ih => simp [ih]

/-! ## What a slice means -/

/-- The character that an escape stands for. -/
def unescape (c : Char) : Char :=
  if c == 'n' then '\n' else if c == 't' then '\t' else if c == 'r' then '\r' else c

/-- The characters that a string spells, read after its opening quote; `none` if it never ends. -/
def stringValue? (quote : Char) : List Char → Option (List Char)
  | [] => none
  | [c] => if c == quote then some [] else none
  | c :: d :: cs =>
    if c == quote then some []
    else if c == '\\' then (stringValue? quote cs).map (unescape d :: ·)
    else (stringValue? quote (d :: cs)).map (c :: ·)

end Slice

/-- The meaning of a slice. -/
inductive Lexeme
  | trivia
  | token (kind : TokenKind)
  | strayCharacter (c : Char)
  | undoubled (c : Char)
  | unterminatedString
deriving DecidableEq, Repr

open Slice in
/-- The meaning of a slice, from the slice alone. -/
def Lexeme.ofSlice : List Char → Lexeme
  | [] => .trivia
  | c :: cs =>
    if isSpace c then .trivia
    else if c == '/' && (cs.head? == some '/' || cs.head? == some '*') then .trivia
    else if isQuote c then
      match stringValue? c cs with
      | some value => .token (.string (String.ofList value))
      | none => .unterminatedString
    else if c.isDigit then .token (.number ((Number.read? (c :: cs)).getD Number.nan))
    else if isNameStart c then .token (.ofWord (String.ofList (c :: cs)))
    else
      match Symbol.ofSpelling? (c :: cs) with
      | some sym => .token (.symbol sym)
      | none => if c == '&' || c == '|' then .undoubled c else .strayCharacter c

end Quill
