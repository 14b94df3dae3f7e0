import Quill.Text.Cluster

/-!
# Typed lines

A line as it stands after typing. A backspace takes away the cluster before it, and at the beginning
of the line nothing. The size of a cluster is noted in one byte, so of a cluster of 256 bytes or more
only what goes beyond a multiple of 256 is taken away.
-/

set_option autoImplicit false

namespace Quill.Text

/-- How many bytes characters take up. -/
def byteCount : List Char → Nat
  | [] => 0
  | c :: cs => c.utf8Size + byteCount cs

/-- A reversed text without the characters of its last bytes. -/
def takeBack : List Char → Nat → List Char
  | [], _ => []
  | c :: cs, bytes => if bytes = 0 then c :: cs else takeBack cs (bytes - c.utf8Size)

/-- A line under way: its characters in reverse, and the sizes noted for its clusters, the last one
first. -/
structure Typing where
  done : List Char := []
  sizes : List Nat := []

/-- The line after one more cluster. -/
def Typing.press (t : Typing) (cluster : List Char) : Typing :=
  if cluster = ['\x08'] then
    match t.sizes with
    | [] => t
    | size :: sizes => ⟨takeBack t.done size, sizes⟩
  else ⟨cluster.reverse ++ t.done, byteCount cluster % 256 :: t.sizes⟩

/-- The line that the keys leave. -/
def typed (keys : List Char) : List Char :=
  ((clusters keys).foldl Typing.press {}).done.reverse

end Quill.Text
