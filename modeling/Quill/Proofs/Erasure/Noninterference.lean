import Quill.Session
import Quill.Proofs.Erasure.Evaluation

/-!
# Positions change nothing but lines

Two programs that differ in positions only, run on two machines that differ in positions only, come
to the same end. Both runs erase to one run, that of the erased program on the erased machine, so
each of them tells what the other one does. The line of a failure is lost on the way. It is told
where the failure ends the program, and in the report that nobody caught it.
-/

set_option autoImplicit false

namespace Quill

/-- Two results differ in positions only. The reason of a failure, which its message is made from,
is the same. The report that nobody caught it has its line in it, so `silent` is what both machines
were before that report. -/
inductive EndsAlike : EStateM.Result Stop Machine Value → EStateM.Result Stop Machine Value → Prop
  | value (v : Value) {m m' : Machine} : m.erase = m'.erase → EndsAlike (.ok v m) (.ok v m')
  | failure {f f' : Failure} {m m' : Machine} (silent : Machine) : f.kind = f'.kind →
      m.erase = silent.report .warn ("uncaught " ++ f.display) →
      m'.erase = silent.report .warn ("uncaught " ++ f'.display) →
      EndsAlike (.error (.failure f) m) (.error (.failure f') m')
  | outOfFuel {m m' : Machine} : m.erase = m'.erase →
      EndsAlike (.error .outOfFuel m) (.error .outOfFuel m')

/-- The program comes to no end, with any amount of fuel. -/
def Diverges (host : Host) (program : List Stmt) (m : Machine) : Prop :=
  ∀ fuel, ∃ m', execute (evaluator host fuel) program m = .error .outOfFuel m'

theorem EndsAlike.outOfFuel_iff {x x' : EStateM.Result Stop Machine Value} (h : EndsAlike x x') :
    (∃ m, x = .error .outOfFuel m) ↔ ∃ m', x' = .error .outOfFuel m' := by
  cases h with
  | value | failure => simp
  | outOfFuel => exact ⟨fun _ => ⟨_, rfl⟩, fun _ => ⟨_, rfl⟩⟩

/-! ## The end of a program -/

/-- What a program makes of the end of its statements. -/
def conclude (kept : Registers) :
    EStateM.Result Stop Machine Completion → EStateM.Result Stop Machine Value
  | .ok completion m => .ok completion.value (m.report .debug "execution finished")
  | .error (.failure f) m =>
    .error (.failure f) ((m.setRegisters kept).report .warn ("uncaught " ++ f.display))
  | .error .outOfFuel m => .error .outOfFuel m

/-- The machine in which the statements of a program begin. -/
def Machine.begin (m : Machine) (program : List Stmt) : Machine :=
  m.report .debug ("executing " ++ toString program.length ++ " statement(s)")

theorem execute_eq (r : Eval) (program : List Stmt) (m : Machine) :
    execute r program m =
      conclude (m.begin program).registers (runStmts r .null program (m.begin program)) := by
  show EStateM.bind (Run.attempt (runStmts r .null program)) _ (m.begin program) = _
  unfold EStateM.bind Run.attempt
  cases runStmts r .null program (m.begin program) with
  | ok completion m' => rfl
  | error stop m' => cases stop <;> rfl

/-- Two ends that erase to one end agree. -/
theorem EndErasesTo.endsAlike {x x' e e' : EStateM.Result Stop Machine Completion}
    (hx : EndErasesTo x e) (hx' : EndErasesTo x' e') (he : e = e') (kept : Registers) :
    EndsAlike (conclude kept x) (conclude kept x') := by
  cases hx with
  | @value completion m hm =>
    cases hx' with
    | @value completion' m' hm' =>
      obtain ⟨rfl, hsame⟩ := EStateM.Result.ok.inj he
      exact .value _ (by rw [Machine.erase_report, Machine.erase_report, hsame])
    | failure | outOfFuel => cases he
  | @failure f g m hkind hm =>
    cases hx' with
    | @failure f' g' m' hkind' hm' =>
      obtain ⟨hstop, hsame⟩ := EStateM.Result.error.inj he
      obtain rfl := Stop.failure.inj hstop
      -- Both machines erase to the one in which the erased program failed.
      refine .failure (m.erase.setRegisters kept) (hkind.trans hkind'.symm) ?_ ?_
      · exact Machine.erase_report _ _ _
      · rw [hsame]
        exact Machine.erase_report _ _ _
    | value | outOfFuel => cases he
  | @outOfFuel m hm =>
    cases hx' with
    | @outOfFuel m' hm' => exact .outOfFuel (EStateM.Result.error.inj he).2
    | value | failure => cases he

/-! ## Every program -/

/-- The report with which a program begins tells the number of statements, which no position
changes. -/
theorem Machine.begin_erase_eq {m m' : Machine} {program program' : List Stmt}
    (hmachine : m.erase = m'.erase) (hprogram : eraseStmts program = eraseStmts program') :
    (m.begin program).erase = (m'.begin program').erase := by
  have hlength : program.length = program'.length :=
    calc
      program.length = (eraseStmts program).length := (length_eraseStmts program).symm
      _ = (eraseStmts program').length := congrArg List.length hprogram
      _ = program'.length := length_eraseStmts program'
  unfold Machine.begin
  rw [erase_report, erase_report, hmachine, hlength]

/-- Programs that are equal without positions, on machines that are equal without positions and have
no functions of the host: with any amount of fuel the results agree, and if one of them comes to no
end, neither does the other. -/
theorem execute_ignores_positions (host : Host) {program program' : List Stmt} {m m' : Machine}
    (hprogram : eraseStmts program = eraseStmts program') (hmachine : m.erase = m'.erase)
    (hfree : m.heap.HostFree) :
    (∀ fuel, EndsAlike (execute (evaluator host fuel) program m)
      (execute (evaluator host fuel) program' m')) ∧
    (Diverges host program m ↔ Diverges host program' m') := by
  have hbegin := Machine.begin_erase_eq hmachine hprogram
  have hkept : (m.begin program).registers = (m'.begin program').registers := by
    rw [← Machine.registers_erase, hbegin, Machine.registers_erase]
  have hfree : (m.begin program).heap.HostFree := by
    rwa [Machine.begin, (Machine.sparesHeap_report _ _).heap_eq]
  have hfree' : (m'.begin program').heap.HostFree := by
    have hheap : (m.begin program).heap.erase = (m'.begin program').heap.erase :=
      congrArg Machine.heap hbegin
    rwa [← Heap.hostFree_erase, ← hheap, Heap.hostFree_erase]
  have hagree (fuel : Nat) : EndsAlike (execute (evaluator host fuel) program m)
      (execute (evaluator host fuel) program' m') := by
    have hruns := erasesTo_runStmts (evaluator_blind host fuel)
    rw [execute_eq, execute_eq, hkept]
    refine (hruns program .null _ hfree).endsAlike (hruns program' .null _ hfree') ?_ _
    rw [hprogram, hbegin]
  exact ⟨hagree, forall_congr' fun fuel => (hagree fuel).outOfFuel_iff⟩

/-- `function fetch() { return missing }`, all on one line. -/
def fetchAt (line : Nat) : FunctionDef :=
  let p : Position := ⟨line, 1⟩
  { name := some "fetch", params := [], body := .block [.ret (some (.ident "missing" p)) p],
    position := p }

/-- `fetch()`, on a line. -/
def callAt (line : Nat) : List Stmt :=
  let p : Position := ⟨line, 1⟩
  [.expr (.call (.ident "fetch" p) [] p)]

/-- A new machine that has the function, as it was written on a line. -/
def Machine.withFetchAt (line : Nat) : Machine :=
  let (f, heap) := Machine.new.heap.allocFunction (.user (fetchAt line) Machine.new.globals)
  { Machine.new with heap }.define "fetch" f

theorem Machine.withFetchAt_erase_eq (line line' : Nat) :
    (withFetchAt line).erase = (withFetchAt line').erase := by
  have hfunctions (line : Nat) : (withFetchAt line).heap.functions.map Function.erase =
      (Machine.new.heap.functions.map Function.erase).push
        (.user (fetchAt 0).erase Machine.new.globals) := Array.map_push
  have hsame := (hfunctions line).trans (hfunctions line').symm
  exact congrArg (fun functions => (withFetchAt line).withHeap
    ((withFetchAt line).heap.withFunctions functions)) hsame

/-- The failures are told for different lines, and that is all. -/
theorem execute_ignores_lines :
    eraseStmts (callAt 1) = eraseStmts (callAt 2) ∧
    (Machine.withFetchAt 3).erase = (Machine.withFetchAt 4).erase ∧
    (Machine.withFetchAt 3).heap.HostFree ∧
    (∃ m, execute (evaluator smallHost 10) (callAt 1) (.withFetchAt 3) =
      .error (.failure ⟨3, .unboundVariable "missing"⟩) m) ∧
    (∃ m, execute (evaluator smallHost 10) (callAt 2) (.withFetchAt 4) =
      .error (.failure ⟨4, .unboundVariable "missing"⟩) m) ∧
    EndsAlike (execute (evaluator smallHost 10) (callAt 1) (.withFetchAt 3))
      (execute (evaluator smallHost 10) (callAt 2) (.withFetchAt 4)) := by
  have hfree : (Machine.withFetchAt 3).heap.HostFree := by
    unfold Heap.HostFree
    decide
  have hmachine := Machine.withFetchAt_erase_eq 3 4
  exact ⟨rfl, hmachine, hfree, ⟨_, rfl⟩, ⟨_, rfl⟩,
    (execute_ignores_positions smallHost rfl hmachine hfree).1 10⟩

end Quill
