import Quill.Equality
import Quill.Syntax.Tree

/-!
# Operators

The operators that take two values. Comparison is of numbers, whatever the kinds of the values.
-/

set_option autoImplicit false

namespace Quill.Heap

/-- The value of an operator between two values. -/
def binary (h : Heap) (op : BinaryOp) (a b : Value) : Value :=
  match op with
  | .add => a.add b
  | .sub => a.sub b
  | .mul => a.mul b
  | .div => a.div b
  | .mod => a.rem b
  | .eq => .bool (h.equal a b)
  | .notEq => .bool (!h.equal a b)
  | .lt => .bool (a.compare b == .lt)
  | .ltEq => .bool (a.compare b != .gt)
  | .gt => .bool (a.compare b == .gt)
  | .gtEq => .bool (a.compare b != .lt)

end Quill.Heap
