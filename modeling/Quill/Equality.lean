import Quill.Heap

/-!
# Equality

Values of different kinds are never equal. Numbers are equal when they are the same double, so NaN
equals NaN and zero differs from negative zero; functions and handles are equal to themselves only;
arrays and objects are compared by what they hold. A container can hold itself: a pair of containers
that is met again while it is being compared counts as equal, which is right unless a difference
turns up elsewhere.
-/

set_option autoImplicit false

namespace Quill

/-- Two containers under comparison. -/
inductive Pairing
  | arrays (a b : ArrayRef)
  | objects (a b : ObjectRef)
deriving DecidableEq, Repr

namespace Pairing

/-- The pair that two values make, if both are arrays or both are objects. -/
def of? : Value → Value → Option Pairing
  | .array a, .array b => some (arrays a b)
  | .object a, .object b => some (objects a b)
  | _, _ => none

/-- A container beside itself. -/
def isDiagonal : Pairing → Bool
  | arrays a b => a == b
  | objects a b => a == b

end Pairing

/-- Equality of values that are not containers of one kind. -/
def Value.sameLeaf : Value → Value → Bool
  | .null, .null => true
  | .bool x, .bool y => x == y
  | .number x, .number y => x.same y
  | .string x, .string y => x == y
  | .function x, .function y => x == y
  | .native x, .native y => x.id == y.id
  | _, _ => false

namespace Heap

/-- What has to be equal for two containers to be: their parts, one beside the other. A part that
has nothing beside it is `none`; arrays of different lengths and objects of different sizes have only
such a part. -/
def parts (h : Heap) : Pairing → List (Option (Value × Value))
  | .arrays a b =>
    let xs := (h.array a).toList
    let ys := (h.array b).toList
    if xs.length = ys.length then (xs.zip ys).map some else [none]
  | .objects a b =>
    let d := h.object a
    let e := h.object b
    if d.size = e.size then d.entries.map fun (key, v) => (e.get? key).map fun w => (v, w)
    else [none]

/-- Equality below the pairs `seen`, which are under comparison further up. A comparison goes
`depth` containers deep and gives up below that. -/
def equalWithin? (h : Heap) (depth : Nat) (seen : List Pairing) (a b : Value) : Option Bool :=
  match Pairing.of? a b with
  | none => some (a.sameLeaf b)
  | some pair =>
    if pair.isDiagonal || seen.contains pair then some true
    else
      match depth with
      | 0 => none
      | depth + 1 => (h.parts pair).allM fun
        | none => some false
        | some (v, w) => h.equalWithin? depth (pair :: seen) v w

/-- No comparison is deeper than there are pairs of containers: each level adds a new one. -/
def pairCount (h : Heap) : Nat := h.arrays.size * h.arrays.size + h.objects.size * h.objects.size

/-- The equality of the language. -/
def equal (h : Heap) (a b : Value) : Bool := (h.equalWithin? (h.pairCount + 1) [] a b).getD false

end Heap

end Quill
