import Quill.Proofs.Contract.Evaluation
import Quill.Proofs.Erasure.Noninterference
import Quill.Session

/-!
# Contracts of programs

A new machine has built-in functions only, so it is ready for every contract that allows them. How a
program ends on it is what the contract says of its statements, with no call open.
-/

set_option autoImplicit false

namespace Quill

open Contract

theorem Machine.new_functions : Machine.new.heap.functions =
    #[.builtin .log, .builtin .warn, .builtin .error, .builtin .typeof, .builtin .parseInt,
      .builtin .parseFloat, .builtin .fromCharCode] := rfl

variable {C : Contract}

theorem Contract.holds_new (hbuiltin : ∀ which, C.function (.builtin which)) (depth : Nat) :
    C.Holds (Machine.new.limitCalls depth) := by
  intro f hf
  have hf : f ∈ Machine.new.heap.functions := hf
  rw [Machine.new_functions] at hf
  simp only [List.mem_toArray, List.mem_cons, List.not_mem_nil, or_false] at hf
  rcases hf with rfl | rfl | rfl | rfl | rfl | rfl | rfl <;> exact hbuiltin _

/-- How a contract allows a program to end on a new machine. -/
inductive Contract.AllowsOutcome (C : Contract) (depth : Nat) : Outcome → Prop
  | value (v : Value) : AllowsOutcome C depth (.value v)
  | failed {f : Failure} : C.line f.line → AllowsOutcome C depth (.failed f)
  | outOfFuel : C.mayStop 0 depth → AllowsOutcome C depth .outOfFuel

theorem Contract.Lawful.outcome (law : C.Lawful) (hbuiltin : ∀ which, C.function (.builtin which))
    {r : Eval} {program : List Stmt} (depth : Nat)
    (h : ∀ s ∈ program, (r.stmt s).Meets C s.declared true) :
    C.AllowsOutcome depth ((Machine.new.limitCalls depth).run (execute r program)).1 := by
  have hend := meets_runStmts_declared law h .null _ (C.holds_new hbuiltin depth)
  have hbegin : (Machine.new.limitCalls depth).begin program = Machine.new.limitCalls depth := rfl
  unfold Machine.run
  rw [execute_eq, hbegin]
  cases hrun : runStmts r .null program (Machine.new.limitCalls depth) with
  | ok completion m => exact .value _
  | error stop m =>
    rw [hrun] at hend
    cases stop with
    | failure f => exact .failed (Locates.line hend.2)
    | outOfFuel => exact .outOfFuel hend.2

end Quill
