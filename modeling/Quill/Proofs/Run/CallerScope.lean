import Quill.Session
import Quill.Proofs.Run.InStep.Evaluation

/-!
# A call does not see its caller

What a call does depends neither on the scope at work where it is made nor on the loops around it.
Only the body of a function written in a script could ask for these, and it runs in a scope of its
own and outside of all loops; the two registers are put back behind it. On the way there, through
methods that call for every element, and through the host, nothing is evaluated that could look. So
two machines that differ in these registers only are made to do the same, and differ in them only
afterwards, each of them having its own ones back.

The functions of the host are taken not to look either, as long as the calls they make do not.
-/

set_option autoImplicit false

namespace Quill

variable {α : Type}

/-! ## Callers -/

/-- Where a call is made: the scope at work and the number of loops around it. -/
structure Caller where
  scope : Scope
  loopDepth : Nat
deriving DecidableEq, Repr

namespace Machine

/-- Where a call would be made. -/
def caller (m : Machine) : Caller := ⟨m.scope, m.loopDepth⟩

/-- The machine at another place. -/
def calledFrom (m : Machine) (k : Caller) : Machine :=
  { m with scope := k.scope, loopDepth := k.loopDepth }

theorem calledFrom_report (m : Machine) (k : Caller) (level : Level) (line : String) :
    (m.calledFrom k).report level line = (m.report level line).calledFrom k := by
  unfold report
  have hshows : (m.calledFrom k).verbosity.shows level = m.verbosity.shows level := rfl
  rw [hshows]
  split <;> rfl

theorem caller_report (m : Machine) (level : Level) (line : String) :
    (m.report level line).caller = m.caller := by
  obtain ⟨events, heq⟩ := m.exists_report_eq level line
  rw [heq]
  rfl

theorem calledFrom_record (m : Machine) (k : Caller) (channel : Channel) (message : String) :
    (m.calledFrom k).record channel message = (m.record channel message).calledFrom k := by
  unfold record
  have hhas : (m.calledFrom k).sinks.has channel = m.sinks.has channel := rfl
  dsimp only
  rw [hhas]
  split
  · rfl
  · exact calledFrom_report { m with output := m.output.push channel message } k _ _

theorem caller_record (m : Machine) (channel : Channel) (message : String) :
    (m.record channel message).caller = m.caller := by
  obtain ⟨output, events, heq⟩ := m.exists_record_eq channel message
  rw [heq]
  rfl

end Machine

/-- One machine is at the first place, and the other is the same but at the second place. -/
structure CalledFrom (k k' : Caller) (m m' : Machine) : Prop where
  caller : m.caller = k
  same : m' = m.calledFrom k'

variable {k k' : Caller}

theorem likeness_calledFrom : Likeness (CalledFrom k k') Never where
  heap := by rintro m _ ⟨rfl, rfl⟩; rfl
  callDepth := by rintro m _ ⟨rfl, rfl⟩; rfl
  maxCallDepth := by rintro m _ ⟨rfl, rfl⟩; rfl
  withHeap := by rintro m _ ⟨rfl, rfl⟩ heap; exact ⟨rfl, rfl⟩
  report := by
    rintro m _ ⟨rfl, rfl⟩ level line
    exact ⟨m.caller_report level line, m.calledFrom_report k' level line⟩
  past := passing_never

theorem recordsInStep_calledFrom : RecordsInStep (CalledFrom k k') Never := by
  refine fun channel message => Run.InStep.self ?_
  rintro m _ ⟨rfl, rfl⟩
  exact .ok () ⟨m.caller_record channel message, m.calledFrom_record k' channel message⟩

/-- A function of a script starts from one and the same machine, whatever its body is, and what is
put back behind it is what there was before. -/
theorem inCall_inStep (scope : Scope) (act : Run α) :
    (Run.inCall scope act).InStep (CalledFrom k k') := by
  rintro m _ ⟨rfl, rfl⟩
  let entered : Machine := { m with scope, loopDepth := 0, callDepth := m.callDepth + 1 }
  simp only [Run.inCall, Run.bracket, Machine.calledFrom]
  cases act entered with
  | ok a m₁ => exact .ok a ⟨rfl, rfl⟩
  | error stop m₁ => exact .error stop ⟨rfl, rfl⟩

/-! ## Every call -/

/-- The functions of the host do not look at their caller, as long as the calls they make do not. -/
def Host.IgnoresCaller (host : Host) : Prop :=
  ∀ service r args, (∀ k k', r.CallsInStep (CalledFrom k k')) →
    ∀ k k', (host service r args).InStep (CalledFrom k k')

theorem evaluator_callsInStep {host : Host} (hhost : host.IgnoresCaller) (fuel : Nat) :
    ∀ k k', (evaluator host fuel).CallsInStep (CalledFrom k k') := by
  induction fuel with
  | zero => exact fun k k' callee args => Run.InStepWith.outOfFuel.inStep
  | succ fuel ih =>
    intro k k' callee args
    have hcall := callValue_inStep likeness_calledFrom
      (fun scope body => (inCall_inStep scope _).self) (ih k k').self
      (fun service args => (hhost service _ args ih k k').self) recordsInStep_calledFrom
    exact (hcall callee args).inStep

/-- On two machines that are the same but for the scope at work and the loop depth, any call ends
with the same value, the same failure, or without fuel on both. The machines after it are the same
but for these two registers, which are on each machine what they were before. -/
theorem call_ignores_caller {host : Host} (hhost : host.IgnoresCaller) (fuel : Nat) (callee : Value)
    (args : List Value) {m m' : Machine} (h : m' = m.calledFrom m'.caller) :
    EndsInStep (CalledFrom m.caller m'.caller) ((evaluator host fuel).call callee args m)
      ((evaluator host fuel).call callee args m') :=
  evaluator_callsInStep hhost fuel _ _ callee args ⟨rfl, h⟩

/-! ## A host that does not look -/

/-- The small host without the service that runs a text in the scope at work. -/
def callingHost : Host := fun service r args =>
  match Service.all.find? (·.name == service) with
  | none | some .exec => return .null
  | some known => known.run r args

theorem callingHost_ignoresCaller : callingHost.IgnoresCaller := by
  intro service r args hr k k'
  unfold callingHost
  split
  · exact (Run.InStepWith.pure _).inStep
  · exact (Run.InStepWith.pure _).inStep
  · next hexec _ =>
    have hlimit (depth : Nat) : (Service.setLimit depth).InStep (CalledFrom k k') := by
      rintro m _ ⟨rfl, rfl⟩
      exact .ok () ⟨rfl, rfl⟩
    exact (Service.run_inStep likeness_calledFrom (hr k k').self
      (fun depth => (hlimit depth).self) hexec args).inStep

/-- `function (x) { while (true) break; return x + tail }`. -/
def appendTail : FunctionDef :=
  let p : Position := .start
  let sum : Expr := .binary .add (.ident "x" p) (.ident "tail" p) p
  { name := none, params := ["x"], position := p,
    body := .block [.whileLoop (.bool true p) (.breakLoop p) p, .ret (some sum) p] }

/-- A new machine with a global variable `tail`, an inner frame with another variable of that name,
an array of two strings, the function, and the method `map` of the array. -/
def tailMachine : Machine :=
  let globals := Machine.new.globals
  let heap := Machine.new.heap.define globals "tail" (.string "!")
  let (inner, heap) := heap.childScope globals
  let heap := heap.define inner "tail" (.string "?")
  let (words, heap) := heap.allocArray #[.string "a", .string "b"]
  let (_, heap) := heap.allocFunction (.user appendTail globals)
  let (_, heap) := heap.allocFunction (.bound (.ofArray .map) words)
  { Machine.new with heap }

/-- The method calls the function twice, once from the globals and once from the inner frame, with
three loops open. -/
theorem map_ignores_caller :
    let inner : Scope := ⟨⟨1⟩, [⟨0⟩]⟩
    let m := tailMachine
    let m' := tailMachine.calledFrom ⟨inner, 3⟩
    let act := (evaluator callingHost 20).call (.function ⟨8⟩) [.function ⟨7⟩]
    callingHost.IgnoresCaller ∧
    m.heap.lookup? m.scope "tail" = some (.string "!") ∧
    m'.heap.lookup? m'.scope "tail" = some (.string "?") ∧
    (m.run act).1 = .value (.array ⟨1⟩) ∧
    (m.run act).2.heap.array ⟨1⟩ = #[.string "a!", .string "b!"] ∧
    EndsInStep (CalledFrom m.caller m'.caller) (act m) (act m') := by
  intro inner m m' act
  refine ⟨callingHost_ignoresCaller, rfl, rfl, by decide +kernel, by decide +kernel, ?_⟩
  have hsame : m' = m.calledFrom m'.caller := rfl
  exact call_ignores_caller callingHost_ignoresCaller 20 _ _ hsame

end Quill
