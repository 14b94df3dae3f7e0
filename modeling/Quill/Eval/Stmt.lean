import Quill.Eval.Call
import Quill.Eval.Expr

/-!
# Statements

How one statement ends, given how its parts do. Blocks, loops and handlers work in frames of their
own; loops take up `break` and `continue`, and pass `return` on.
-/

set_option autoImplicit false

namespace Quill

namespace Run

/-- Binds a name in the scope at work. -/
def declare (name : String) (value : Value) (mutable : Bool) : Run Unit := do
  let scope ← Run.scope
  write (·.bind scope name value mutable)

/-- Works in a new frame in which one name is bound. -/
def inChildWith {α : Type} (name : String) (value : Value) (mutable : Bool) (act : Run α) :
    Run α := do
  let scope ← Run.scope
  let child ← update (·.childScope scope)
  write (·.bind child name value mutable)
  inScope child act

/-- A `break` or `continue` has to be inside a loop. -/
def loopControl (line : Nat) (outside : FailureKind) (completion : Completion) : Run Completion :=
  fun m => if m.loopDepth = 0 then .error (.failure ⟨line, outside⟩) m else .ok completion m

end Run

/-- The value of an expression that may be left out. -/
def evalOption (r : Eval) : Option Expr → Run Value
  | some e => r.expr e
  | none => return .null

/-- Statements in a new frame. -/
def runBlock (r : Eval) (stmts : List Stmt) : Run Completion := Run.inChild (runStmts r .null stmts)

/-! ## Loops -/

/-- Repeats a pass until it says how the loop ends. -/
def iterate (pass : Run (Option Completion)) : Nat → Run Completion
  | 0 => Run.outOfFuel
  | fuel + 1 => do
    match ← pass with
    | some done => return done
    | none => iterate pass fuel

/-- The end of a loop whose condition fails. -/
def loopEnd : Completion := .normal .null

/-- One pass of a loop that tests first. -/
def whilePass (r : Eval) (condition : Expr) (body : Stmt) : Run (Option Completion) := do
  if (← r.expr condition).toBool then return (← r.stmt body).leavesLoop? else return some loopEnd

/-- One pass of a loop that tests last. -/
def doWhilePass (r : Eval) (body : Stmt) (condition : Expr) : Run (Option Completion) := do
  match (← r.stmt body).leavesLoop? with
  | some done => return some done
  | none => if (← r.expr condition).toBool then return none else return some loopEnd

/-- The condition of a counting loop, which holds when it is left out. -/
def loopTest (r : Eval) : Option Expr → Run Bool
  | some e => return (← r.expr e).toBool
  | none => return true

/-- One pass of a counting loop. -/
def forPass (r : Eval) (condition update : Option Expr) (body : Stmt) :
    Run (Option Completion) := do
  if ← loopTest r condition then
    match (← r.stmt body).leavesLoop? with
    | some done => return some done
    | none =>
      let _ ← evalOption r update
      return none
  else return some loopEnd

/-- The first part of a counting loop. -/
def loopStart (r : Eval) : Option Stmt → Run Unit
  | some stmt => do
    let _ ← r.stmt stmt
  | none => return ()

/-- The body once for every value, each time in a new frame. -/
def eachPass (r : Eval) (name : String) (mutable : Bool) (body : Stmt) :
    List Value → Run Completion
  | [] => return loopEnd
  | value :: rest => do
    match (← Run.inChildWith name value mutable (r.stmt body)).leavesLoop? with
    | some done => return done
    | none => eachPass r name mutable body rest

/-! ## Failures -/

/-- The handler of a failure, which sees its message. -/
def runHandler (r : Eval) (handler : Handler) (f : Failure) : Run Completion :=
  Run.inChildWith handler.param (.string f.message) true (runStmts r .null handler.body)

/-- The body of a `try` and its handler. -/
def runGuarded (r : Eval) (body : List Stmt) (handler : Option Handler) : Run Completion := do
  match ← Run.attempt (runBlock r body), handler with
  | .error f, some handler => runHandler r handler f
  | outcome, _ => Run.resume outcome

/-- A `try`. The cleanup runs in every case; if it does not end normally, its end counts. -/
def runTry (r : Eval) (body : List Stmt) (handler : Option Handler) :
    Option (List Stmt) → Run Completion
  | none => runGuarded r body handler
  | some cleanup => do
    let outcome ← Run.attempt (runGuarded r body handler)
    match ← runBlock r cleanup with
    | .normal _ => Run.resume outcome
    | abrupt => return abrupt

/-! ## All statements -/

/-- How a statement ends. -/
def execStmt (r : Eval) : Stmt → Run Completion
  | .expr e => return .normal (← r.expr e)
  | .declare name constant init _ => do
    let value ← evalOption r init
    Run.declare name value (!constant)
    return .normal value
  | .ifElse condition whenTrue whenFalse _ => do
    if (← r.expr condition).toBool then r.stmt whenTrue
    else
      match whenFalse with
      | some stmt => r.stmt stmt
      | none => return .normal .null
  | .ret value _ => return .returned (← evalOption r value)
  | .block stmts _ => runBlock r stmts
  | .whileLoop condition body _ => Run.inLoop (iterate (whilePass r condition body) r.fuel)
  | .doWhile body condition _ => Run.inLoop (iterate (doWhilePass r body condition) r.fuel)
  | .forLoop init condition update body _ => Run.inChild do
    loopStart r init
    Run.inLoop (iterate (forPass r condition update body) r.fuel)
  | .forEach name constant traversal subject body _ => do
    let container ← r.expr subject
    let values ← Run.read (·.traverse traversal container)
    Run.inLoop (eachPass r name (!constant) body values)
  | .breakLoop position => Run.loopControl position.line .breakOutsideLoop .broke
  | .continueLoop position => Run.loopControl position.line .continueOutsideLoop .continued
  | .tryCatch body handler cleanup _ => runTry r body handler cleanup
  | .throw value position => do
    let v ← r.expr value
    Run.fail position.line (.thrown v.toText)
  | .function d => do
    let f ← Run.closure d
    match d.name with
    | some name => Run.declare name f true
    | none => pure ()
    return .normal .null

end Quill
