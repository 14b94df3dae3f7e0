import Quill.Failure
import Quill.Heap
import Quill.Text.Quoted

/-!
# Scopes

Names are bound in the innermost frame of a scope and looked for from there outwards. Assignment
changes the nearest binding and never makes one.
-/

set_option autoImplicit false

namespace Quill.Heap

/-- Binds a name in the innermost frame, over any binding it has there. -/
def bind (h : Heap) (s : Scope) (name : String) (value : Value) (mutable : Bool) : Heap :=
  h.modifyFrame s.frame (·.set name ⟨value, mutable⟩)

/-- Binds a variable. -/
def define (h : Heap) (s : Scope) (name : String) (value : Value) : Heap :=
  h.bind s name value true

/-- Binds a constant. -/
def defineConstant (h : Heap) (s : Scope) (name : String) (value : Value) : Heap :=
  h.bind s name value false

/-- The first frame of a chain that binds a name, with the binding. -/
def findBinding? (h : Heap) (name : String) : List FrameRef → Option (FrameRef × Binding)
  | [] => none
  | f :: outer =>
    match (h.frame f).get? name with
    | some b => some (f, b)
    | none => h.findBinding? name outer

/-- The value of a name. -/
def lookup? (h : Heap) (s : Scope) (name : String) : Option Value :=
  (h.findBinding? name s.chain).map (·.2.value)

/-- The nearest binding of a name, which has to be a variable, as a slot to write to. -/
def variableSlot (h : Heap) (s : Scope) (name : String) : Except FailureKind Slot :=
  match h.findBinding? name s.chain with
  | none => .error (.unboundVariable name)
  | some (f, b) => if b.mutable then .ok (.binding f name) else .error (.constReassignment name)

/-- Changes the nearest binding of a name. -/
def assign (h : Heap) (s : Scope) (name : String) (value : Value) : Except FailureKind Heap :=
  (h.variableSlot s name).map (h.store value)

/-- The names bound in the innermost frame, in the order of their characters. -/
def localNames (h : Heap) (s : Scope) : List String :=
  (h.frame s.frame).keys.mergeSort fun a b =>
    !List.lex b.toList a.toList fun x y => x.toNat < y.toNat

/-- The scope in a listing, which shows its own names only. -/
def displayScope (h : Heap) (s : Scope) : String :=
  r"Scope { names: [" ++ ", ".intercalate ((h.localNames s).map Text.quoted) ++ r"], .. }"

end Quill.Heap
