import Quill.Method
import Quill.Syntax.Tree

/-!
# Failures

What can stop a running script, and on which line. A script can catch every failure; it then sees
the message, which does not tell the line. Line `0` stands for none.
-/

set_option autoImplicit false

namespace Quill

/-- The causes. -/
inductive FailureKind
  | unboundVariable (name : String)
  | constReassignment (name : String)
  | notCallable (value : String)
  | invalidUpdateOperand (op : UpdateOp)
  | invalidAssignmentTarget
  | breakOutsideLoop
  | continueOutsideLoop
  | emptyReduce
  | callbackRequired (method : ArrayMethod)
  | indexOutOfBounds (index : Int) (length : Nat)
  | callStackOverflow
  /-- Raised by `throw` or by a function of the host. -/
  | thrown (message : String)
deriving DecidableEq, Repr

namespace FailureKind

/-- The name of the kind. -/
def label : FailureKind → String
  | .unboundVariable _ => "UnboundVariable"
  | .constReassignment _ => "ConstReassignment"
  | .notCallable _ => "NotCallable"
  | .invalidUpdateOperand _ => "InvalidUpdateOperand"
  | .invalidAssignmentTarget => "InvalidAssignmentTarget"
  | .breakOutsideLoop => "BreakOutsideLoop"
  | .continueOutsideLoop => "ContinueOutsideLoop"
  | .emptyReduce => "EmptyReduce"
  | .callbackRequired _ => "CallbackRequired"
  | .indexOutOfBounds _ _ => "IndexOutOfBounds"
  | .callStackOverflow => "CallStackOverflow"
  | .thrown _ => "Thrown"

/-- What a handler in a script is told, which has no line in it. -/
def message : FailureKind → String
  | .unboundVariable name => "Undefined variable: " ++ name
  | .constReassignment name => "Cannot reassign constant: " ++ name
  | .notCallable value => "Cannot call non-function: " ++ value
  | .invalidUpdateOperand op => "Invalid operand for " ++ op.spelling
  | .invalidAssignmentTarget => "Invalid assignment target"
  | .breakOutsideLoop => "'break' outside of loop"
  | .continueOutsideLoop => "'continue' outside of loop"
  | .emptyReduce => "reduce of empty array with no initial value"
  | .callbackRequired method => method.name ++ " requires a function argument"
  | .indexOutOfBounds index length =>
    "Index " ++ toString index ++ " out of bounds for length " ++ toString length
  | .callStackOverflow => "Maximum call stack size exceeded"
  | .thrown message => message

end FailureKind

/-- A cause and its line. -/
structure Failure where
  line : Nat
  kind : FailureKind
deriving DecidableEq, Repr

namespace Failure

/-- What a script that catches the failure sees. -/
def message (f : Failure) : String := f.kind.message

/-- The failure in one line. -/
def display (f : Failure) : String := "[runtime] line " ++ toString f.line ++ ": " ++ f.message

/-- Attaches a line to a failure without one. -/
def atLine (line : Nat) (f : Failure) : Failure := if f.line = 0 then { f with line } else f

end Failure

end Quill
