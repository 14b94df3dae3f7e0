import Quill.Text.Blank
import Quill.Text.Lines

/-!
# Scripts

A script is a source with the facts a host keeps about it. Its name and its mode can be told in the
source, by directives such as `// @name: Fold` in the comments that it begins with.
-/

set_option autoImplicit false

namespace Quill

/-- What a host applies a script to. -/
inductive ScriptMode
  | ast | ir | both
deriving DecidableEq, Repr, Inhabited

namespace ScriptMode

/-- The mode as it is written. -/
def label : ScriptMode → String
  | .ast => "ast"
  | .ir => "ir"
  | .both => "both"

/-- The mode that a text names, in any case and between blanks; `ast` when it names none. -/
def ofText (text : List Char) : ScriptMode :=
  let word := String.ofList ((Text.trim text).map Char.toLower)
  if word = "ir" then .ir else if word = "both" then .both else .ast

end ScriptMode

/-! ## Directives -/

/-- The text after a beginning that it has to have. -/
def Text.after? : (beginning : List Char) → List Char → Option (List Char)
  | [], cs => some cs
  | _ :: _, [] => none
  | b :: bs, c :: cs => if b == c then after? bs cs else none

/-- The value of a directive in the text of a comment. -/
def directiveValue? (key : String) (comment : List Char) : Option (List Char) := do
  let marked ← Text.after? ['@'] (Text.trimStart comment)
  let afterKey ← Text.after? key.toList marked
  let value ← Text.after? [':'] (Text.trimStart afterKey)
  return Text.trim value

/-- The value of the first directive with a key. Only the comments and blank lines that the text
begins with are searched. -/
def findDirective? (key : String) : List (List Char) → Option (List Char)
  | [] => none
  | line :: rest =>
    let text := Text.trim line
    if text.isEmpty then findDirective? key rest
    else
      match Text.after? ['/', '/'] text with
      | none => none
      | some comment =>
        match directiveValue? key comment with
        | some value => some value
        | none => findDirective? key rest

/-- The value of a directive of a source. -/
def directive? (key : String) (source : String) : Option (List Char) :=
  findDirective? key (Text.lines source.toList)

/-! ## Scripts -/

/-- A source with what is known about it. -/
structure Script where
  name : String
  mode : ScriptMode
  source : String
  /-- It comes with the host. -/
  builtIn : Bool := false
  description : Option String := none
  author : Option String := none
  version : Option String := none
deriving DecidableEq, Repr

namespace Script

/-- The name of a script that tells none. -/
def defaultName : String := "Untitled Script"

/-- The mode that a source tells. -/
def modeOf (source : String) : ScriptMode :=
  match directive? "mode" source with
  | some value => .ofText value
  | none => .ast

/-- The name that a source tells. -/
def nameOf (source : String) : String :=
  match directive? "name" source with
  | some [] | none => defaultName
  | some value => String.ofList value

/-- The script of a source, with the name and the mode it tells. -/
def ofSource (source : String) : Script where
  name := nameOf source
  mode := modeOf source
  source := source

end Script

end Quill
