import Quill.Equality
import Quill.Scope

/-!
# The machine

The state of a running script: the heap, the scope at work and the outermost one, how many loops and
calls are open, and the messages the script has left. A computation on it either delivers a value,
or stops with a failure, or runs out of fuel; the state goes on in every case.

Three registers are changed for a stretch of work only and changed back after it however it ends:
the scope, the loop depth and the call depth. `bracket` does so; the scope is kept and put back, and
the depths are counted up and down.
-/

set_option autoImplicit false

namespace Quill

/-! ## Messages -/

/-- The three ways in which a script leaves messages. -/
inductive Channel
  | log | warn | error
deriving DecidableEq, Repr

/-- How grave a line of the interpreter's own report is. -/
inductive Level
  | error | warn | info | debug | trace
deriving DecidableEq, Repr

/-- The level as it is written in front of a line. -/
def Level.label : Level → String
  | .error => "ERROR"
  | .warn => "WARN"
  | .info => "INFO"
  | .debug => "DEBUG"
  | .trace => "TRACE"

/-- How much the interpreter reports. -/
inductive Verbosity
  | off | debug | trace
deriving DecidableEq, Repr

/-- Lines of this level are wanted. -/
def Verbosity.shows : Verbosity → Level → Bool
  | .off, _ => false
  | .debug, .trace => false
  | .debug, _ => true
  | .trace, _ => true

/-- The level at which a message without a sink is reported. -/
def Channel.level : Channel → Level
  | .log => .info
  | .warn => .warn
  | .error => .error

/-- What a sink receives for a message. -/
def Channel.sinkLine (c : Channel) (message : String) : String :=
  match c with
  | .log => message
  | .warn => "WARN: " ++ message
  | .error => "ERROR: " ++ message

/-- What leaves the machine while it runs. -/
inductive Event
  /-- A line for the sink of a channel. -/
  | sunk (channel : Channel) (line : String)
  /-- A line of the interpreter's own report. -/
  | report (level : Level) (line : String)
deriving DecidableEq, Repr

/-- The messages that were left, by channel. -/
structure Output where
  logs : Array String := #[]
  warnings : Array String := #[]
  errors : Array String := #[]
deriving DecidableEq, Repr

/-- Keeps one more message. -/
def Output.push (o : Output) (channel : Channel) (message : String) : Output :=
  match channel with
  | .log => { o with logs := o.logs.push message }
  | .warn => { o with warnings := o.warnings.push message }
  | .error => { o with errors := o.errors.push message }

/-- The channels that have a sink. -/
structure Sinks where
  log : Bool := false
  warn : Bool := false
  error : Bool := false
deriving DecidableEq, Repr

namespace Sinks

/-- The channel has a sink. -/
def has (s : Sinks) : Channel → Bool
  | .log => s.log
  | .warn => s.warn
  | .error => s.error

/-- Gives a channel a sink. -/
def install (s : Sinks) : Channel → Sinks
  | .log => { s with log := true }
  | .warn => { s with warn := true }
  | .error => { s with error := true }

/-- A sink on every channel. -/
def all : Sinks := ⟨true, true, true⟩

end Sinks

/-! ## State -/

/-- How many calls of script functions may be open, unless the host says otherwise. -/
def defaultMaxCallDepth : Nat := 1000

/-- The state of a running script. -/
structure Machine where
  heap : Heap
  /-- The outermost scope. -/
  globals : Scope
  /-- The scope at work. -/
  scope : Scope
  loopDepth : Nat := 0
  callDepth : Nat := 0
  maxCallDepth : Nat := defaultMaxCallDepth
  output : Output := {}
  sinks : Sinks := {}
  verbosity : Verbosity := .off
  events : Array Event := #[]

/-- What is changed for a stretch of work only. -/
structure Registers where
  scope : Scope
  loopDepth : Nat
  callDepth : Nat
deriving DecidableEq, Repr

namespace Machine

/-- The registers as they stand. -/
def registers (m : Machine) : Registers := ⟨m.scope, m.loopDepth, m.callDepth⟩

/-- The machine with its registers set. -/
def setRegisters (m : Machine) (kept : Registers) : Machine :=
  { m with scope := kept.scope, loopDepth := kept.loopDepth, callDepth := kept.callDepth }

/-- Adds a line to the interpreter's report, if it is wanted. -/
def report (m : Machine) (level : Level) (line : String) : Machine :=
  if m.verbosity.shows level then { m with events := m.events.push (.report level line) } else m

/-- Keeps a message and passes it on, to the sink of its channel or else to the report. -/
def record (m : Machine) (channel : Channel) (message : String) : Machine :=
  let m := { m with output := m.output.push channel message }
  if m.sinks.has channel then
    { m with events := m.events.push (.sunk channel (channel.sinkLine message)) }
  else m.report channel.level message

/-- A line of the report changes nothing but the events. -/
theorem exists_report_eq (m : Machine) (level : Level) (line : String) :
    ∃ events, m.report level line = { m with events } := by
  unfold report
  split
  · exact ⟨_, rfl⟩
  · exact ⟨m.events, rfl⟩

/-- A message changes nothing but the messages and the events. -/
theorem exists_record_eq (m : Machine) (channel : Channel) (message : String) :
    ∃ output events, m.record channel message = { m with output, events } := by
  unfold record
  dsimp only
  split
  · exact ⟨_, _, rfl⟩
  · obtain ⟨events, h⟩ :=
      exists_report_eq { m with output := m.output.push channel message } channel.level message
    exact ⟨_, events, h⟩

end Machine

/-! ## Computations -/

/-- Why a computation delivers no value. -/
inductive Stop
  | failure (failure : Failure)
  /-- The bound on the depth of evaluation was reached. -/
  | outOfFuel
deriving DecidableEq, Repr

/-- A computation on the machine. -/
abbrev Run := EStateM Stop Machine

/-- How a statement ended. -/
inductive Completion
  | normal (value : Value)
  | returned (value : Value)
  | broke
  | continued
deriving DecidableEq, Repr

/-- What a function body or a program that ended so is worth. -/
def Completion.value : Completion → Value
  | normal v | returned v => v
  | broke | continued => .null

/-- What a loop does after its body ended so: go on, or end in turn. -/
def Completion.leavesLoop? : Completion → Option Completion
  | normal _ | continued => none
  | broke => some (normal .null)
  | returned v => some (returned v)

namespace Run

variable {α σ : Type}

/-- Gives up because the bound on evaluation is reached. -/
def outOfFuel : Run α := throw .outOfFuel

/-- Fails at a line; line `0` stands for a line still to be attached. -/
def fail (line : Nat) (kind : FailureKind) : Run α := throw (.failure ⟨line, kind⟩)

/-- Reads from the heap. -/
def read (f : Heap → α) : Run α := fun m => .ok (f m.heap) m

/-- Changes the heap. -/
def write (f : Heap → Heap) : Run Unit := fun m => .ok () { m with heap := f m.heap }

/-- Changes the heap and delivers something. -/
def update (f : Heap → α × Heap) : Run α := fun m =>
  let (a, heap) := f m.heap
  .ok a { m with heap }

/-- Puts a value into a slot, if there is one. -/
def store (line : Nat) (find : Heap → Except FailureKind Slot) (value : Value) : Run Unit := fun m =>
  match find m.heap with
  | .ok slot => .ok () { m with heap := m.heap.store value slot }
  | .error kind => .error (.failure ⟨line, kind⟩) m

/-- Makes an array. -/
def allocArray (items : Array Value) : Run Value := update (·.allocArray items)

/-- Makes an object. -/
def allocObject (entries : Dict Value) : Run Value := update (·.allocObject entries)

/-- Makes a function value. -/
def allocFunction (f : Function) : Run Value := update (·.allocFunction f)

/-- Adds a line to the interpreter's report. -/
def report (level : Level) (line : String) : Run Unit := fun m => .ok () (m.report level line)

/-- Leaves a message. -/
def record (channel : Channel) (message : String) : Run Unit := fun m =>
  .ok () (m.record channel message)

/-- Changes registers for the time of a computation and changes them back however it ends. -/
def bracket (keep : Machine → σ) (enter : Machine → Machine) (leave : σ → Machine → Machine)
    (act : Run α) : Run α := fun m =>
  let kept := keep m
  match act (enter m) with
  | .ok a m' => .ok a (leave kept m')
  | .error e m' => .error e (leave kept m')

/-- Works in another scope. -/
def inScope (scope : Scope) (act : Run α) : Run α :=
  bracket (·.scope) ({ · with scope }) (fun kept m => { m with scope := kept }) act

/-- Works in a new frame inside the scope at work. -/
def inChild (act : Run α) : Run α := do
  let scope := (← get).scope
  let child ← update (·.childScope scope)
  inScope child act

/-- Works inside one more loop. -/
def inLoop (act : Run α) : Run α :=
  bracket (fun _ => ()) (fun m => { m with loopDepth := m.loopDepth + 1 })
    (fun _ m => { m with loopDepth := m.loopDepth - 1 }) act

/-- Works inside one more call, in the scope of the function and outside of all loops. -/
def inCall (scope : Scope) (act : Run α) : Run α :=
  bracket (fun m => (m.scope, m.loopDepth))
    (fun m => { m with scope, loopDepth := 0, callDepth := m.callDepth + 1 })
    (fun kept m =>
      { m with scope := kept.1, loopDepth := kept.2, callDepth := m.callDepth - 1 }) act

/-- Attaches a line to a failure that has none. -/
def atLine (line : Nat) (act : Run α) : Run α := fun m =>
  match act m with
  | .error (.failure f) m' => .error (.failure (f.atLine line)) m'
  | result => result

/-- The failure of a computation as a value. Running out of fuel cannot be caught. -/
def attempt (act : Run α) : Run (Except Failure α) := fun m =>
  match act m with
  | .ok a m' => .ok (.ok a) m'
  | .error (.failure f) m' => .ok (.error f) m'
  | .error .outOfFuel m' => .error .outOfFuel m'

/-- Sets the registers. -/
def setRegisters (kept : Registers) : Run Unit := fun m => .ok () (m.setRegisters kept)

/-- Goes on with an outcome. -/
def resume : Except Failure α → Run α
  | .ok a => pure a
  | .error f => throw (.failure f)

end Run

/-! ## The evaluator one level down -/

/-- What evaluation of one node needs from the rest of the evaluator. `fuel` bounds the passes of a
loop. -/
structure Eval where
  fuel : Nat
  expr : Expr → Run Value
  stmt : Stmt → Run Completion
  call : Value → List Value → Run Value

/-- The functions that the host offers to scripts, by service. A service is given the evaluator, so
it can call back. -/
abbrev Host := String → Eval → List Value → Run Value

end Quill
