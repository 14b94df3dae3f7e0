import Quill.Dict
import Quill.Method
import Quill.Syntax.Tree
import Quill.Value

/-!
# The heap

All that references point to: arrays, objects, functions, and the frames that hold variables. A
reference is a place in one of four tables, and allocation adds a place at the end, so a reference
never comes to mean something else. A scope is its own frame and those around it, innermost first;
a function keeps the scope it was made in.
-/

set_option autoImplicit false

namespace Quill

/-- The place of a frame in the heap. -/
structure FrameRef where
  index : Nat
deriving DecidableEq, Repr

/-- A frame and the frames around it. -/
structure Scope where
  frame : FrameRef
  outer : List FrameRef
deriving DecidableEq, Repr

/-- The frames in which a name is looked for, in order. -/
def Scope.chain (s : Scope) : List FrameRef := s.frame :: s.outer

/-- A variable. -/
structure Binding where
  value : Value
  mutable : Bool
deriving DecidableEq, Repr

/-- A place in the heap that a script can write to. -/
inductive Slot
  /-- A variable of a frame, which is not a constant. -/
  | binding (frame : FrameRef) (name : String)
  /-- A position of an array, or one behind its end. -/
  | element (array : ArrayRef) (position : Nat)
  /-- An entry of an object, or one to come. -/
  | entry (object : ObjectRef) (key : String)
deriving DecidableEq, Repr

/-- The functions that every script finds. -/
inductive Builtin
  | log | warn | error | typeof | parseInt | parseFloat | fromCharCode
deriving DecidableEq, Repr

/-- The name that a script calls it by. -/
def Builtin.name : Builtin → String
  | log => "log"
  | warn => "warn"
  | error => "error"
  | typeof => "typeof"
  | parseInt => "parseInt"
  | parseFloat => "parseFloat"
  | fromCharCode => "fromCharCode"

/-- What a function value stands for. -/
inductive Function
  /-- Written in a script. -/
  | user (definition : FunctionDef) (scope : Scope)
  | builtin (which : Builtin)
  /-- A method read as a value, with the value it was read from. -/
  | bound (method : Method) (receiver : Value)
  /-- Offered by the host, which knows what `service` does. -/
  | host (name service : String)

/-- The function in a listing. -/
def Function.display : Function → String
  | user d _ => "Function(" ++ d.displayName ++ "/" ++ toString d.params.length ++ ")"
  | builtin b => "NativeFunction(" ++ b.name ++ ")"
  | bound m _ => "NativeFunction(" ++ m.name ++ ")"
  | host name _ => "NativeFunction(" ++ name ++ ")"

/-- The tables. References are positions in them, and nothing is ever removed. -/
structure Heap where
  arrays : Array (Array Value) := #[]
  objects : Array (Dict Value) := #[]
  functions : Array Function := #[]
  frames : Array (Dict Binding) := #[]
  /-- How many handles were given out. -/
  handles : Nat := 0

instance : Inhabited Heap := ⟨{}⟩

namespace Heap

/-! ## Containers -/

/-- The elements of an array. -/
def array (h : Heap) (a : ArrayRef) : Array Value := h.arrays.getD a.index #[]

/-- The entries of an object. -/
def object (h : Heap) (o : ObjectRef) : Dict Value := h.objects.getD o.index .empty

/-- The function that a reference stands for. -/
def function? (h : Heap) (f : FunctionRef) : Option Function := h.functions[f.index]?

/-- A new array. -/
def allocArray (h : Heap) (items : Array Value) : Value × Heap :=
  (.array ⟨h.arrays.size⟩, { h with arrays := h.arrays.push items })

/-- A new object. -/
def allocObject (h : Heap) (entries : Dict Value) : Value × Heap :=
  (.object ⟨h.objects.size⟩, { h with objects := h.objects.push entries })

/-- A new function, equal to no other. -/
def allocFunction (h : Heap) (f : Function) : Value × Heap :=
  (.function ⟨h.functions.size⟩, { h with functions := h.functions.push f })

/-- A new handle, equal to no other. -/
def allocHandle (h : Heap) (label : String) (data : Option Int) : Value × Heap :=
  (.native ⟨h.handles, label, data⟩, { h with handles := h.handles + 1 })

/-- Changes the elements of an array. -/
def modifyArray (h : Heap) (a : ArrayRef) (f : Array Value → Array Value) : Heap :=
  { h with arrays := h.arrays.modify a.index f }

/-- Changes the entries of an object. -/
def modifyObject (h : Heap) (o : ObjectRef) (f : Dict Value → Dict Value) : Heap :=
  { h with objects := h.objects.modify o.index f }

/-! ## Frames and scopes -/

/-- The variables of a frame. -/
def frame (h : Heap) (f : FrameRef) : Dict Binding := h.frames.getD f.index .empty

/-- Changes the bindings of a frame. -/
def modifyFrame (h : Heap) (f : FrameRef) (g : Dict Binding → Dict Binding) : Heap :=
  { h with frames := h.frames.modify f.index g }

/-- A new frame inside a scope. -/
def childScope (h : Heap) (s : Scope) : Scope × Heap :=
  (⟨⟨h.frames.size⟩, s.chain⟩, { h with frames := h.frames.push .empty })

/-- A new frame with nothing around it. -/
def rootScope (h : Heap) : Scope × Heap :=
  (⟨⟨h.frames.size⟩, []⟩, { h with frames := h.frames.push .empty })

/-! ## Slots -/

/-- An array with a position set, nulls filling what was missing before it. -/
def setGrowing (items : Array Value) (i : Nat) (value : Value) : Array Value :=
  if i < items.size then items.setIfInBounds i value
  else (items ++ Array.replicate (i - items.size) Value.null).push value

/-- Puts a value into a slot. -/
def store (h : Heap) (value : Value) : Slot → Heap
  | .binding f name => h.modifyFrame f (·.set name ⟨value, true⟩)
  | .element a i => h.modifyArray a (setGrowing · i value)
  | .entry o key => h.modifyObject o (·.set key value)

end Heap

end Quill
