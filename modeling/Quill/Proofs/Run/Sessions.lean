import Quill.Proofs.Erasure.Noninterference
import Quill.Proofs.Run.InStep.Evaluation
import Quill.Proofs.Run.LoopControl
import Quill.Proofs.Run.Registers
import Quill.Proofs.Run.Returns

/-!
# Sessions are programs cut in two

A host that runs one program and then another on the same machine comes to where it would have come
with one program in place of both, as long as the first has no `return` outside of functions. For
then its statements, if they do not fail, are run to the last, and the registers are back in place
when the second program begins.

The runs are not the same in all: each program is reported when it begins and when it ends. These
lines are for debugging and leave the machine; nothing that the machine keeps tells them apart.
-/

set_option autoImplicit false

namespace Quill

/-! ## Machines that differ in what was reported for debugging -/

/-- A line of the report that is there for debugging. -/
def Event.isDebug : Event → Bool
  | .report .debug _ => true
  | .report _ _ | .sunk _ _ => false

/-- The machine without the lines for debugging that it has reported. -/
def Machine.withoutDebug (m : Machine) : Machine :=
  { m with events := m.events.filter (!·.isDebug) }

/-- The machines are the same but for lines for debugging. -/
def SameButDebug (m m' : Machine) : Prop := m'.withoutDebug = m.withoutDebug

theorem Machine.withoutDebug_debug (m : Machine) (line : String) :
    (m.report .debug line).withoutDebug = m.withoutDebug := by
  unfold Machine.report
  split
  · simp [Machine.withoutDebug, Event.isDebug]
  · rfl

theorem Machine.withoutDebug_report (m : Machine) (level : Level) (line : String) :
    (m.report level line).withoutDebug =
      if level = .debug then m.withoutDebug else m.withoutDebug.report level line := by
  split
  · next hlevel =>
    subst hlevel
    exact m.withoutDebug_debug line
  · next hlevel =>
    have hkept : (Event.report level line).isDebug = false := by
      cases level <;> first | rfl | exact absurd rfl hlevel
    unfold Machine.report
    simp only [show m.withoutDebug.verbosity = m.verbosity from rfl]
    split
    · simp [Machine.withoutDebug, hkept]
    · rfl

theorem Machine.withoutDebug_sink (m : Machine) (channel : Channel) (line : String) :
    { m with events := m.events.push (.sunk channel line) }.withoutDebug =
      { m.withoutDebug with events := m.withoutDebug.events.push (.sunk channel line) } := by
  simp [Machine.withoutDebug, Event.isDebug]

theorem Machine.withoutDebug_record (m : Machine) (channel : Channel) (message : String) :
    (m.record channel message).withoutDebug = m.withoutDebug.record channel message := by
  have hlevel : channel.level ≠ .debug := by cases channel <;> nofun
  unfold Machine.record
  dsimp only
  simp only [show m.withoutDebug.sinks = m.sinks from rfl]
  split
  · exact Machine.withoutDebug_sink { m with output := m.output.push channel message } _ _
  · rw [Machine.withoutDebug_report, if_neg hlevel]
    rfl

theorem withRegisters_sameButDebug : Likeness.WithRegisters SameButDebug Never where
  heap h := (congrArg Machine.heap h :)
  callDepth h := (congrArg Machine.callDepth h :)
  maxCallDepth h := (congrArg Machine.maxCallDepth h :)
  withHeap h heap := (congrArg (fun m : Machine => { m with heap }) h :)
  report h level line := by
    unfold SameButDebug at h ⊢
    rw [Machine.withoutDebug_report, Machine.withoutDebug_report, h]
  past := passing_never
  registers h := (congrArg Machine.registers h :)
  setRegisters h kept := (congrArg (Machine.setRegisters · kept) h :)

theorem recordsInStep_sameButDebug : RecordsInStep SameButDebug Never := by
  refine fun channel message => Run.InStep.self fun m m' h => .ok () ?_
  unfold SameButDebug at h ⊢
  rw [Machine.withoutDebug_record, Machine.withoutDebug_record, h]

theorem evaluator_inStep_sameButDebug {host : Host} (hhost : host.InStep SameButDebug)
    (fuel : Nat) : (evaluator host fuel).InStep SameButDebug :=
  evaluator_inStep withRegisters_sameButDebug recordsInStep_sameButDebug hhost fuel

theorem smallHost_inStep_sameButDebug : smallHost.InStep SameButDebug :=
  smallHost_inStep withRegisters_sameButDebug fun depth _ _ h =>
    .ok () (congrArg (fun m : Machine => { m with maxCallDepth := depth }) h :)

/-! ## Statements one after the other -/

/-- Statements that are run to the last hand on their value to what follows them. -/
theorem runStmts_append (r : Eval) (last : Value) (first second : List Stmt) :
    runStmts r last (first ++ second) = (runStmts r last first >>= fun
      | .normal value => runStmts r value second
      | completion => pure completion) := by
  induction first generalizing last with
  | nil => rfl
  | cons stmt rest ih =>
    show (r.stmt stmt >>= _) = ((r.stmt stmt >>= _) >>= _)
    rw [bind_assoc]
    refine bind_congr fun completion => ?_
    cases completion with
    | normal value => exact ih value
    | returned | broke | continued => rfl

/-- What value there was before matters to no statements but none. -/
theorem runStmts_last_irrelevant (r : Eval) {stmts : List Stmt} (h : stmts ≠ [])
    (last last' : Value) : runStmts r last stmts = runStmts r last' stmts := by
  cases stmts with
  | nil => exact absurd rfl h
  | cons stmt rest => rfl

theorem Completion.eq_normal {c : Completion} (hcontrol : c.isLoopControl = false)
    (hreturn : c.isReturn = false) : c = .normal c.value := by
  cases c with
  | normal value => rfl
  | returned => cases hreturn
  | broke | continued => cases hcontrol

/-- Outside of loops, statements without `return` are run to the last if they do not fail. -/
theorem runStmts_normal {host : Host} (hkeeps : host.Along SameRegisters) (fuel : Nat)
    {stmts : List Stmt} (hstmts : ReturnFree stmts) {last : Value} {m m' : Machine} {c : Completion}
    (hm : m.loopDepth = 0) (hok : runStmts (evaluator host fuel) last stmts m = .ok c m') :
    c = .normal c.value := by
  have hr := evaluator_along runRelation_sameRegisters hkeeps fuel
  have hconfined := confined_runStmts hr (evaluator_confined hkeeps fuel) stmts last
  have hreturn := runStmts_delivers (evaluator_delivers host fuel) hstmts last m c m' hok
  exact Completion.eq_normal (hconfined.not_loopControl hm hok) hreturn

/-! ## One program after the other -/

theorem Machine.begin_sameButDebug (m : Machine) (program : List Stmt) :
    SameButDebug m (m.begin program) :=
  m.withoutDebug_debug _

theorem Machine.registers_begin (m : Machine) (program : List Stmt) :
    (m.begin program).registers = m.registers :=
  m.registers_report _ _

/-- Programs that keep the same registers end as their statements do. -/
theorem conclude_inStep (kept : Registers) {x x' : EStateM.Result Stop Machine Completion}
    (h : EndsInStep SameButDebug x x') :
    EndsInStep SameButDebug (conclude kept x) (conclude kept x') := by
  have law := withRegisters_sameButDebug
  cases h with
  | ok c h => exact .ok _ (law.report h _ _)
  | error stop h =>
    cases stop with
    | failure f => exact .error _ (law.report (law.setRegisters h kept) _ _)
    | outOfFuel => exact .error _ h

theorem EndsInStep.trans_sameButDebug {α : Type} {x y z : EStateM.Result Stop Machine α}
    (hxy : EndsInStep SameButDebug x y) (hyz : EndsInStep SameButDebug y z) :
    EndsInStep SameButDebug x z := by
  cases hxy with
  | ok a h =>
    cases hyz with
    | ok _ h' => exact .ok a (h'.trans h)
  | error stop h =>
    cases hyz with
    | error _ h' => exact .error stop (h'.trans h)

/-- A program may as well begin on a machine that is the same but for lines for debugging. -/
theorem execute_begun {r : Eval} (hr : r.InStep SameButDebug) (program : List Stmt)
    {m begun : Machine} (hbegun : SameButDebug begun m) :
    EndsInStep SameButDebug (conclude m.registers (runStmts r .null program begun))
      (execute r program m) := by
  rw [execute_eq, Machine.registers_begin]
  refine conclude_inStep _ ((runStmts_inStep hr.self program .null).inStep ?_)
  exact (m.begin_sameButDebug program).trans hbegun

/-- What ends a program with a value or with a failure ended its statements so. -/
theorem of_conclude_eq_error {kept : Registers} {x : EStateM.Result Stop Machine Completion}
    {stop : Stop} {m : Machine} (h : conclude kept x = .error stop m) :
    ∃ mid, x = .error stop mid := by
  cases x with
  | ok c mid => cases h
  | error stop' mid =>
    cases stop' <;>
    · cases h
      exact ⟨_, rfl⟩

theorem of_conclude_eq_ok {kept : Registers} {x : EStateM.Result Stop Machine Completion}
    {v : Value} {m : Machine} (h : conclude kept x = .ok v m) :
    ∃ c mid, x = .ok c mid ∧ v = c.value ∧ m = mid.report .debug "execution finished" := by
  cases x with
  | ok c mid =>
    cases h
    exact ⟨c, mid, rfl, rfl, rfl⟩
  | error stop mid => cases stop <;> cases h

section Cut

variable {host : Host} (hblind : host.InStep SameButDebug) (fuel : Nat) (second : List Stmt)

include hblind

/-- The program of both begins with the statements of the first. -/
theorem execute_append_begun (m : Machine) (first : List Stmt) :
    EndsInStep SameButDebug
      (conclude m.registers
        ((runStmts (evaluator host fuel) .null first >>= fun
          | .normal value => runStmts (evaluator host fuel) value second
          | completion => pure completion) (m.begin first)))
      (execute (evaluator host fuel) (first ++ second) m) := by
  rw [← runStmts_append]
  exact execute_begun (evaluator_inStep_sameButDebug hblind fuel) _
    (m.begin_sameButDebug first).symm

theorem execute_append_of_error {m m₁ : Machine} {first : List Stmt} {stop : Stop}
    (hrun : execute (evaluator host fuel) first m = .error stop m₁) :
    EndsInStep SameButDebug (.error stop m₁)
      (execute (evaluator host fuel) (first ++ second) m) := by
  have hboth := execute_append_begun hblind fuel second m first
  rw [execute_eq, Machine.registers_begin] at hrun
  obtain ⟨mid, hmid⟩ := of_conclude_eq_error hrun
  rw [← hrun, hmid]
  simpa only [Bind.bind, EStateM.bind, hmid] using hboth

/-- The statements of the second follow where the first program has ended. -/
theorem execute_append_of_ok (hkeeps : host.Along SameRegisters) {m m₁ : Machine}
    (hm : m.loopDepth = 0) {first : List Stmt} (hfirst : ReturnFree first) {v : Value}
    (hrun : execute (evaluator host fuel) first m = .ok v m₁) :
    EndsInStep SameButDebug
      (conclude m₁.registers (runStmts (evaluator host fuel) v second (m₁.begin second)))
      (execute (evaluator host fuel) (first ++ second) m) := by
  have hboth := execute_append_begun hblind fuel second m first
  rw [execute_eq, Machine.registers_begin] at hrun
  obtain ⟨c, mid, hmid, rfl, rfl⟩ := of_conclude_eq_ok hrun
  have hdepth : (m.begin first).loopDepth = 0 := by
    rw [← hm]
    exact congrArg Registers.loopDepth (m.registers_begin first)
  have hnormal := runStmts_normal hkeeps fuel hfirst hdepth hmid
  -- The first program has put the registers back, so the second one keeps those of `m`.
  have hregisters : mid.registers = m.registers := by
    have hr := evaluator_along runRelation_sameRegisters hkeeps fuel
    have hafter := along_runStmts runRelation_sameRegisters hr first .null (m.begin first)
    rw [Run.after, hmid] at hafter
    exact hafter.trans (m.registers_begin first)
  rw [Machine.registers_report, hregisters]
  have hsame : SameButDebug ((mid.report .debug "execution finished").begin second) mid :=
    ((Machine.begin_sameButDebug _ second).trans (mid.withoutDebug_debug _)).symm
  have hr := evaluator_inStep_sameButDebug hblind fuel
  have hsecond := (runStmts_inStep hr.self second c.value).inStep hsame
  refine .trans_sameButDebug (conclude_inStep _ hsecond) ?_
  rw [hnormal] at hmid
  simpa only [Bind.bind, EStateM.bind, hmid] using hboth

end Cut

/-- Two programs in turn come to the same end as one program with the statements of both, on
machines that are the same but for lines for debugging. If the first fails, so does the program of
both. If it does not, the second ends as the program of both does, with the same failure or with the
same value; without statements it has no value of its own, and that of the first is the one. -/
theorem execute_append {host : Host} (hkeeps : host.Along SameRegisters)
    (hblind : host.InStep SameButDebug) (fuel : Nat) {m : Machine} (hm : m.loopDepth = 0)
    {first : List Stmt} (hfirst : ReturnFree first) (second : List Stmt) :
    let run := execute (evaluator host fuel)
    (∀ stop m₁, run first m = .error stop m₁ →
      EndsInStep SameButDebug (.error stop m₁) (run (first ++ second) m)) ∧
    (∀ v m₁, run first m = .ok v m₁ →
      (second ≠ [] → EndsInStep SameButDebug (run second m₁) (run (first ++ second) m)) ∧
      (second = [] → ∃ m₂, run second m₁ = .ok .null m₂ ∧
        EndsInStep SameButDebug (.ok v m₂) (run (first ++ second) m))) := by
  refine ⟨fun stop m₁ hrun => execute_append_of_error hblind fuel second hrun,
    fun v m₁ hrun => ?_⟩
  have hboth := execute_append_of_ok hblind fuel second hkeeps hm hfirst hrun
  refine ⟨fun hsecond => ?_, fun hsecond => ?_⟩
  · rw [execute_eq, Machine.registers_begin, runStmts_last_irrelevant _ hsecond .null v]
    exact hboth
  · subst hsecond
    exact ⟨_, execute_eq _ _ _, hboth⟩

/-- `let pick = () => { return "a" }; while (true) break;`. -/
def definePick : List Stmt :=
  let p : Position := .start
  let pick : Expr :=
    .function { name := none, params := [], body := .block [.ret (some (.string "a" p)) p],
                position := p }
  [.declare "pick" false (some pick) p, .whileLoop (.bool true p) (.breakLoop p) p]

theorem definePick_returnFree : ReturnFree definePick := by
  intro s hs hreturns
  simp only [definePick, List.mem_cons, List.not_mem_nil, or_false] at hs
  rcases hs with rfl | rfl
  · cases hreturns with
    | inside hpart _ => simp at hpart
  · cases hreturns with
    | inside hpart hreturns =>
      obtain rfl : _ = Stmt.breakLoop .start := by simpa using hpart
      cases hreturns with
      | inside hpart _ => cases hpart

/-- The second program calls the function that the first one has bound, and finds the value of its
`return`. -/
theorem pick_in_two_programs :
    let m : Machine := { Machine.new with verbosity := .trace }
    let call : List Stmt := [.expr (.call (.ident "pick" .start) [] .start)]
    let run := execute (evaluator smallHost 20)
    let m₁ := (m.run (run definePick)).2
    smallHost.Along SameRegisters ∧ smallHost.InStep SameButDebug ∧ m.loopDepth = 0 ∧
    ReturnFree definePick ∧
    run definePick m = .ok .null m₁ ∧
    (m₁.run (run call)).1 = .value (.string "a") ∧
    EndsInStep SameButDebug (run call m₁) (run (definePick ++ call) m) := by
  intro m call run m₁
  have hfirst : run definePick m = .ok .null m₁ := rfl
  have hdepth : m.loopDepth = 0 := rfl
  have hboth := execute_append smallHost_along smallHost_inStep_sameButDebug 20 hdepth
    definePick_returnFree call
  exact ⟨smallHost_along, smallHost_inStep_sameButDebug, hdepth, definePick_returnFree,
    hfirst, by decide +kernel, (hboth.2 .null m₁ hfirst).1 (List.cons_ne_nil _ _)⟩

end Quill
