import Quill.Method.OfArray

/-!
# Calls

Calling a function value, whatever it stands for. A function written in a script runs in a new frame
inside the scope it was made in; arguments that are missing are null, and those in excess are
dropped. A value that is no function cannot be called.
-/

set_option autoImplicit false

namespace Quill

/-! ## The functions that every script finds -/

/-- The integer that a text spells, truncated into thirty-two bits. -/
def readInteger (text : String) : Number :=
  let n := Number.ofText text
  if n.isNaN then n else Number.ofInt n.toInt32

/-- The character with a UTF-16 code unit. Half of a surrogate pair is no character. -/
def charOfUnit (n : Number) : Char :=
  let unit := (n.toIndex % 65536).toNat
  if 0xD800 ≤ unit && unit ≤ 0xDFFF then '\uFFFD' else Char.ofNat unit

/-- Calls a built-in function. -/
def Builtin.call (which : Builtin) (args : List Value) : Run Value := do
  let first := argument args 0
  match which with
  | .log =>
    Run.record .log (" ".intercalate (args.map Value.toText))
    return .null
  | .warn =>
    Run.record .warn first.toText
    return .null
  | .error =>
    Run.record .error first.toText
    return .null
  | .typeof => return .string first.typeName
  | .parseInt => return .number (readInteger first.toText)
  | .parseFloat => return .number (Number.ofText first.toText)
  | .fromCharCode => return .ofChars [charOfUnit first.toNumber]

/-! ## Functions of scripts -/

/-- Runs statements in order: the value of the last one, or the first that does not end normally. -/
def runStmts (r : Eval) (last : Value) : List Stmt → Run Completion
  | [] => return .normal last
  | stmt :: rest => do
    match ← r.stmt stmt with
    | .normal value => runStmts r value rest
    | abrupt => return abrupt

/-- Binds parameters to arguments. -/
def bindParams (h : Heap) (scope : Scope) : List String → List Value → Heap
  | [], _ => h
  | param :: params, args =>
    bindParams (h.define scope param (args.headD .null)) scope params args.tail

/-- A frame for a call, with the parameters bound. -/
def callFrame (h : Heap) (closure : Scope) (params : List String) (args : List Value) :
    Scope × Heap :=
  let (scope, h) := h.childScope closure
  (scope, bindParams h scope params args)

/-- The value of a function body, in the frame of the call. -/
def runBody (r : Eval) : FunctionBody → Run Value
  | .block stmts => return (← runStmts r .null stmts).value
  | .expr value => r.expr value

/-- As many calls are open as may be. -/
def callsExhausted : Run Bool := fun m => .ok (m.maxCallDepth ≤ m.callDepth) m

/-- Calls a function written in a script. -/
def callUser (r : Eval) (d : FunctionDef) (closure : Scope) (args : List Value) : Run Value := do
  Run.report .trace ("call " ++ d.displayName ++ "/" ++ toString args.length)
  if ← callsExhausted then Run.fail 0 .callStackOverflow
  else
    let scope ← Run.update (callFrame · closure d.params args)
    Run.inCall scope (runBody r d.body)

/-! ## All functions -/

/-- Calls a value. -/
def callValue (host : Host) (r : Eval) (callee : Value) (args : List Value) : Run Value := do
  match callee with
  | .function f =>
    match ← Run.read (·.function? f) with
    | some (.user d closure) => callUser r d closure args
    | some (.builtin which) => which.call args
    | some (.bound method receiver) => method.call r receiver args
    | some (.host _ service) => host service r args
    | none => Run.fail 0 (.notCallable callee.toText)
  | _ => Run.fail 0 (.notCallable callee.toText)

end Quill
