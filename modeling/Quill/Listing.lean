/-!
# Listings

The common shape of printed structures: a name with parts in parentheses, a name with named fields in
braces, and lists in brackets. A listing is written either on one line or spread out, one part to a
line and each level indented by four blanks.
-/

set_option autoImplicit false

namespace Quill

/-- A structure to print. -/
inductive Listing
  | atom (text : String)
  /-- `Name(part, part)` -/
  | tuple (name : String) (parts : List Listing)
  /-- A name and named fields in braces. -/
  | fields (name : String) (parts : List (String × Listing))
  /-- `[part, part]` -/
  | list (parts : List Listing)

namespace Listing

/-- A part that may be missing. -/
def option : Option Listing → Listing
  | some part => .tuple "Some" [part]
  | none => .atom "None"

/-- A comma after the last line. -/
def closeLines : List String → List String
  | [] => []
  | [line] => [line ++ ","]
  | line :: rest => line :: closeLines rest

/-- A text in front of the first line. -/
def headLines (text : String) : List String → List String
  | [] => [text]
  | line :: rest => (text ++ line) :: rest

/-- The lines of a part inside another one. -/
def indentLines (lines : List String) : List String := (closeLines lines).map ("    " ++ ·)

mutual

/-- The lines of a listing spread out. -/
def spreadLines : Listing → List String
  | .atom text => [text]
  | .tuple name [] => [name]
  | .tuple name (part :: parts) =>
    (name ++ "(") :: partLines (part :: parts) ++ [")"]
  | .fields name parts => (name ++ r" {") :: fieldLines parts ++ [r"}"]
  | .list [] => ["[]"]
  | .list (part :: parts) => "[" :: partLines (part :: parts) ++ ["]"]

/-- The lines of parts in order. -/
def partLines : List Listing → List String
  | [] => []
  | part :: parts => indentLines part.spreadLines ++ partLines parts

/-- The lines of named fields in order. -/
def fieldLines : List (String × Listing) → List String
  | [] => []
  | (name, part) :: parts =>
    indentLines (headLines (name ++ ": ") part.spreadLines) ++ fieldLines parts

end

end Listing

end Quill
