import Quill.Eval
import Quill.Syntax.Program

/-!
# A host

A small host for embedding programs: a few services that a script function can be bound to. They
show what a host may do with the evaluator it is given, such as calling a function value or running
source text in the scope at work.
-/

set_option autoImplicit false

namespace Quill

/-- The services of the small host. -/
inductive Service
  /-- Twice the first argument. -/
  | double
  /-- An array of the arguments. -/
  | args
  /-- Fails with the text of the first argument. -/
  | fail
  /-- Calls the first argument with the rest. -/
  | apply
  /-- What the host keeps in a handle. -/
  | peek
  /-- Runs the text of the first argument as a program. -/
  | exec
  /-- Sets how many calls may be open. -/
  | limit
deriving DecidableEq, Repr

namespace Service

def all : List Service := [.double, .args, .fail, .apply, .peek, .exec, .limit]

/-- The name that a host asks for it by. -/
def name : Service → String
  | .double => "double"
  | .args => "args"
  | .fail => "fail"
  | .apply => "apply"
  | .peek => "peek"
  | .exec => "exec"
  | .limit => "limit"

/-- Sets how many calls of script functions may be open. -/
def setLimit (depth : Nat) : Run Unit := fun m => .ok () { m with maxCallDepth := depth }

/-- Runs a source text in the scope at work. A text that does not compile fails with its first
diagnostic. -/
def execSource (r : Eval) (source : String) : Run Value :=
  match compile source with
  | .ok program => execute r program
  | .error diagnostics =>
    Run.fail 0 (.thrown ((diagnostics.head?.map Diagnostic.display).getD ""))

/-- What a service does. -/
def run (service : Service) (r : Eval) (args : List Value) : Run Value :=
  match service, args with
  | .double, [] => return .number .zero
  | .double, v :: _ => return .number (Number.ofNat 2 * v.toNumber)
  | .args, args => Run.allocArray args.toArray
  | .fail, [] => Run.fail 0 (.thrown "host refused")
  | .fail, v :: _ => Run.fail 0 (.thrown v.toText)
  | .apply, args => r.call (argument args 0) args.tail
  | .peek, args =>
    match argument args 0 with
    | .native ⟨_, _, some data⟩ => return .number (Number.ofInt data)
    | _ => return .null
  | .exec, [] => execSource r ""
  | .exec, v :: _ => execSource r v.toText
  | .limit, [] => do
    setLimit 0
    return .null
  | .limit, v :: _ => do
    setLimit (v.toNumber.truncateWithin 0 (Nat.pow 2 64 - 1 : Nat)).toNat
    return .null

end Service

/-- The small host. What it does not know gives null. -/
def smallHost : Host := fun service r args =>
  match Service.all.find? (·.name == service) with
  | some known => known.run r args
  | none => return .null

end Quill
