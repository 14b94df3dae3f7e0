import Quill.Eval.Stmt

/-!
# Evaluation

The knot of the evaluator. Evaluating a node is an ordinary function of the evaluator one level of
fuel down, and `evaluator` is that function iterated, so it is total: with no fuel left, every
computation stops. Fuel bounds the depth of evaluation and the passes of a single loop, not the
number of steps.
-/

set_option autoImplicit false

namespace Quill

/-- The evaluator with a given amount of fuel. -/
def evaluator (host : Host) : Nat → Eval
  | 0 =>
    { fuel := 0
      expr := fun _ => Run.outOfFuel
      stmt := fun _ => Run.outOfFuel
      call := fun _ _ => Run.outOfFuel }
  | fuel + 1 =>
    { fuel
      expr := fun e => evalExpr (evaluator host fuel) e
      stmt := fun s => execStmt (evaluator host fuel) s
      call := fun f args => callValue host (evaluator host fuel) f args }

/-- More fuel than any run can use up. -/
def ampleFuel : Nat := Nat.pow 2 60

/-- Runs a program in the scope at work: the value of its last statement, or of a `return`. A
failure that nobody caught is reported, with the registers as they were before. -/
def execute (r : Eval) (program : List Stmt) : Run Value := do
  Run.report .debug ("executing " ++ toString program.length ++ " statement(s)")
  let kept := (← get).registers
  match ← Run.attempt (runStmts r .null program) with
  | .ok completion =>
    Run.report .debug "execution finished"
    return completion.value
  | .error f =>
    Run.setRegisters kept
    Run.report .warn ("uncaught " ++ f.display)
    throw (.failure f)

end Quill
