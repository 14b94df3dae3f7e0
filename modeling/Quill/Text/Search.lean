import Quill.Text.Lines

/-!
# Literal search

Finding a text inside another, cutting at its occurrences and replacing them. Occurrences are taken
from the left and do not overlap. Positions count characters.
-/

set_option autoImplicit false

namespace Quill.Text

/-- The position of the first occurrence. The empty text occurs at the start. -/
def find? (needle : List Char) : List Char → Option Nat
  | [] => if needle.isEmpty then some 0 else none
  | c :: cs => if needle.isPrefixOf (c :: cs) then some 0 else (find? needle cs).map (· + 1)

/-- The parts of a text between the occurrences of `sep :: seps`. -/
def cut (sep : Char) (seps : List Char) : List Char → List (List Char)
  | [] => [[]]
  | c :: cs =>
    if (sep :: seps).isPrefixOf (c :: cs) then [] :: cut sep seps (cs.drop seps.length)
    else consFirst c (cut sep seps cs)
termination_by cs => cs.length
decreasing_by
  · simp only [List.length_cons, List.length_drop]
    omega
  · simp only [List.length_cons]
    omega

/-- The parts joined with a text between them. -/
def join (sep : List Char) (parts : List (List Char)) : List Char := sep.intercalate parts

/-- Every occurrence of `needle` replaced. The empty text occurs before every character and at the
end. -/
def replace (needle replacement cs : List Char) : List Char :=
  match needle with
  | [] => replacement ++ cs.flatMap fun c => c :: replacement
  | sep :: seps => join replacement (cut sep seps cs)

/-- The parts of a text between separators. The empty separator cuts between all characters; parts
that are empty at the end are dropped, except that a text without any separator is its only part. -/
def split (sep cs : List Char) : List (List Char) :=
  if cs.isEmpty then [[]]
  else match sep with
    | [] => cs.map ([·])
    | c :: more =>
      if (find? sep cs).isNone then [cs]
      else ((cut c more cs).reverse.dropWhile List.isEmpty).reverse

end Quill.Text
