import Quill.Host

/-!
# Sessions

A machine with the built-in names bound, and what a host does with it between runs: run sources,
call functions, bind and read global names, and collect what scripts left. A failure leaves the
machine usable, with the bindings made before it.
-/

set_option autoImplicit false

namespace Quill

/-! ## Starting -/

/-- Binds a built-in function as a constant. -/
def installBuiltin (globals : Scope) (h : Heap) (which : Builtin) : Heap :=
  let (f, h) := h.allocFunction (.builtin which)
  h.defineConstant globals which.name f

/-- Binds all that every script finds. -/
def installBuiltins (globals : Scope) (h : Heap) : Heap :=
  let h := [Builtin.log, .warn, .error, .typeof, .parseInt, .parseFloat].foldl
    (installBuiltin globals) h
  let (fromCharCode, h) := h.allocFunction (.builtin .fromCharCode)
  let (string, h) := h.allocObject (Dict.empty.set Builtin.fromCharCode.name fromCharCode)
  h.defineConstant globals "String" string

/-- A new machine on a heap, which may hold values of other machines. -/
def Machine.on (heap : Heap) : Machine :=
  let (globals, heap) := heap.rootScope
  { heap := installBuiltins globals heap, globals, scope := globals }

/-- A new machine. -/
def Machine.new : Machine := .on {}

/-! ## Running -/

/-- How a run ended. -/
inductive Outcome
  | value (v : Value)
  | failed (f : Failure)
  /-- The source did not compile. -/
  | rejected (diagnostics : List Diagnostic)
  | outOfFuel
deriving DecidableEq, Repr

namespace Machine

/-- Runs a computation. -/
def run (m : Machine) (act : Run Value) : Outcome × Machine :=
  match act m with
  | .ok v m => (.value v, m)
  | .error (.failure f) m => (.failed f, m)
  | .error .outOfFuel m => (.outOfFuel, m)

/-- Runs a program. -/
def execute (m : Machine) (host : Host) (program : List Stmt) : Outcome × Machine :=
  m.run (Quill.execute (evaluator host ampleFuel) program)

/-- Compiles and runs a source. -/
def exec (m : Machine) (host : Host) (source : String) : Outcome × Machine :=
  match compile source with
  | .ok program => m.execute host program
  | .error diagnostics => (.rejected diagnostics, m)

/-- Calls a function value from outside. -/
def call (m : Machine) (host : Host) (callee : Value) (args : List Value) : Outcome × Machine :=
  m.run ((evaluator host ampleFuel).call callee args)

/-- Calls a method from outside. -/
def callMethod (m : Machine) (host : Host) (method : Method) (receiver : Value)
    (args : List Value) : Outcome × Machine :=
  m.run (method.call (evaluator host ampleFuel) receiver args)

/-! ## Global names -/

/-- The value of a global name. -/
def global? (m : Machine) (name : String) : Option Value := m.heap.lookup? m.globals name

/-- Binds a global variable. -/
def define (m : Machine) (name : String) (value : Value) : Machine :=
  { m with heap := m.heap.define m.globals name value }

/-- Binds a global constant. -/
def defineConstant (m : Machine) (name : String) (value : Value) : Machine :=
  { m with heap := m.heap.defineConstant m.globals name value }

/-- Offers a service of the host under a name. -/
def offer (m : Machine) (name service : String) : Machine :=
  let (f, heap) := m.heap.allocFunction (.host name service)
  { m with heap }.defineConstant name f

/-- Changes a global variable, which has to be bound. -/
def assign (m : Machine) (name : String) (value : Value) : Except FailureKind Machine :=
  (m.heap.assign m.globals name value).map fun heap => { m with heap }

/-- The names bound in the outermost frame, sorted. -/
def globalNames (m : Machine) : List String := m.heap.localNames m.globals

/-! ## Settings and messages -/

/-- Sets how many calls of script functions may be open. -/
def limitCalls (m : Machine) (depth : Nat) : Machine := { m with maxCallDepth := depth }

/-- Gives a channel a sink. -/
def installSink (m : Machine) (channel : Channel) : Machine :=
  { m with sinks := m.sinks.install channel }

/-- Forgets the messages that were left. -/
def clearOutput (m : Machine) : Machine := { m with output := {} }

/-- The lines that went to sinks. -/
def sunkLines (m : Machine) : List String :=
  m.events.toList.filterMap fun
    | .sunk _ line => some line
    | .report _ _ => none

/-- Forgets what has left the machine. -/
def clearEvents (m : Machine) : Machine := { m with events := #[] }

end Machine

end Quill
