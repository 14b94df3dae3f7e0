/-!
# Lines

A line ends at a newline, which may have a carriage return in front of it; neither belongs to the
line. The last line needs no newline, and a carriage return there stays.
-/

set_option autoImplicit false

namespace Quill.Text

/-- One more character in front of the first part. -/
def consFirst (c : Char) : List (List Char) → List (List Char)
  | [] => [[c]]
  | part :: parts => (c :: part) :: parts

/-- The lines of a text with their newlines, so that together they are the text. -/
def rawLines : List Char → List (List Char)
  | [] => []
  | c :: cs => if c == '\n' then [c] :: rawLines cs else consFirst c (rawLines cs)

/-- A line without its newline and the carriage return before that. -/
def stripEnding (line : List Char) : List Char :=
  if line.getLast? = some '\n' then
    let body := line.dropLast
    if body.getLast? = some '\r' then body.dropLast else body
  else line

/-- The lines of a text. -/
def lines (cs : List Char) : List (List Char) := (rawLines cs).map stripEnding

end Quill.Text
