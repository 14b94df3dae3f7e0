import Quill.Failure
import Quill.Heap

/-!
# Elements

Reading and writing the parts of containers: elements of arrays and characters of strings by
position, entries of objects by the text of the key. Reading what is not there gives null. An array
grows to take a write behind its end, the gap being filled with nulls, but only so far.
-/

set_option autoImplicit false

namespace Quill.Heap

/-- How far behind the end of an array a write may go. -/
def maxArrayGap : Nat := 65536

/-- The part of a container under a key. -/
def readIndex (h : Heap) (container key : Value) : Value :=
  match container with
  | .array a => (key.toPosition?.bind fun i => (h.array a)[i]?).getD .null
  | .string s =>
    match key.toPosition?.bind fun i => s.toList[i]? with
    | some c => .ofChars [c]
    | none => .null
  | .object o => ((h.object o).get? key.toText).getD .null
  | _ => .null

/-- The part of a container under a key, as a slot to write to. -/
def indexSlot (h : Heap) (container key : Value) : Except FailureKind Slot :=
  match container with
  | .array a =>
    let length := (h.array a).size
    match key.toPosition? with
    | some i =>
      if i - length ≤ maxArrayGap then .ok (.element a i)
      else .error (.indexOutOfBounds key.toIndex length)
    | none => .error (.indexOutOfBounds key.toIndex length)
  | .object o => .ok (.entry o key.toText)
  | _ => .error .invalidAssignmentTarget

/-- Sets a property. Only objects have properties to set; on other values nothing happens. -/
def writeMember (h : Heap) (container : Value) (name : String) (value : Value) : Heap :=
  match container with
  | .object o => h.store value (.entry o name)
  | _ => h

/-- The whole numbers below a bound. -/
def indexValues (n : Nat) : List Value := (List.range n).map .ofNat

/-- What a `for` over a value binds, one after the other. -/
def traverse (h : Heap) (traversal : Traversal) (subject : Value) : List Value :=
  match subject, traversal with
  | .array a, .elements => (h.array a).toList
  | .array a, .indices => indexValues (h.array a).size
  | .object o, .elements => (h.object o).values
  | .object o, .indices => (h.object o).keys.map .string
  | .string s, .elements => s.toList.map fun c => .ofChars [c]
  | .string s, .indices => indexValues s.length
  | _, _ => []

/-- The length of a string or an array, the one field that these have. -/
def field? (h : Heap) (receiver : Value) (name : String) : Option Value :=
  if name = "length" then
    match receiver with
    | .string s => some (.ofNat s.length)
    | .array a => some (.ofNat (h.array a).size)
    | _ => none
  else none

end Quill.Heap

namespace Quill

/-- The method of a value under a name. -/
def MethodTable.lookup? (t : MethodTable) (receiver : Value) (name : String) : Option Method :=
  match receiver with
  | .string _ => t.ofString? name
  | .array _ => t.ofArray? name
  | _ => none

end Quill
