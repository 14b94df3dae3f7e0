import Quill.Text.CaseMap
import Quill.Text.Classes

/-!
# Case of texts

A text changes case character by character. One character looks at its neighbours: a capital sigma
at the end of a word has a lower case of its own.
-/

set_option autoImplicit false

namespace Quill.Text

/-- The first character that counts for case is a cased one. -/
def startsCased (cs : List Char) : Bool :=
  match cs.dropWhile isCaseIgnorable with
  | c :: _ => isCased c
  | [] => false

/-- The text in upper case. -/
def upper (cs : List Char) : List Char := cs.flatMap upperOf

/-- The text in lower case, given the characters before it in reverse. -/
def lowerAfter (before : List Char) : List Char → List Char
  | [] => []
  | c :: cs =>
    let image :=
      if c == 'Σ' then if startsCased before && !startsCased cs then ['ς'] else ['σ']
      else lowerOf c
    image ++ lowerAfter (c :: before) cs

/-- The text in lower case. -/
def lower (cs : List Char) : List Char := lowerAfter [] cs

end Quill.Text
