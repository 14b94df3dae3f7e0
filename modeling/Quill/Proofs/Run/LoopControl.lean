import Quill.Proofs.Run.Delivers
import Quill.Proofs.Run.Registers

/-!
# Loop control stays inside of loops

`break` and `continue` travel outwards as ends of statements, through blocks, branches, handlers and
cleanups, until a loop takes them up. The right to raise them is a counter that is kept apart: loops
count it up, and calls set it to zero. That the two agree on every path is what keeps a `break` in a
function from reaching a loop around the call.

A function body or a program that did end with one of them would be worth null. `Completion.valueOr`
does something else in that case, and `evaluatorOr` is the evaluator with it in place of null: it is
the same evaluator, so the case never comes up.
-/

set_option autoImplicit false

namespace Quill

variable {α : Type}

/-- A loop around the statement is to take this up. -/
def Completion.isLoopControl : Completion → Bool
  | .broke | .continued => true
  | .normal _ | .returned _ => false

def Stmt.isLoop : Stmt → Bool
  | .whileLoop .. | .doWhile .. | .forLoop .. | .forEach .. => true
  | _ => false

/-! ## The evaluator with another end for loop control -/

/-- What a function body or a program that ended so is worth, where `escaped` is what happens to
loop control that got out. -/
def Completion.valueOr (escaped : Run Value) : Completion → Run Value
  | .normal v | .returned v => pure v
  | .broke | .continued => escaped

def runBodyOr (escaped : Run Value) (r : Eval) : FunctionBody → Run Value
  | .block stmts => do
    let completion ← runStmts r .null stmts
    completion.valueOr escaped
  | .expr value => r.expr value

def callUserOr (escaped : Run Value) (r : Eval) (d : FunctionDef) (closure : Scope)
    (args : List Value) : Run Value := do
  Run.report .trace ("call " ++ d.displayName ++ "/" ++ toString args.length)
  if ← callsExhausted then Run.fail 0 .callStackOverflow
  else
    let scope ← Run.update (callFrame · closure d.params args)
    Run.inCall scope (runBodyOr escaped r d.body)

def callValueOr (escaped : Run Value) (host : Host) (r : Eval) (callee : Value)
    (args : List Value) : Run Value := do
  match callee with
  | .function f =>
    match ← Run.read (·.function? f) with
    | some (.user d closure) => callUserOr escaped r d closure args
    | some (.builtin which) => which.call args
    | some (.bound method receiver) => method.call r receiver args
    | some (.host _ service) => host service r args
    | none => Run.fail 0 (.notCallable callee.toText)
  | _ => Run.fail 0 (.notCallable callee.toText)

/-- The evaluator in which every function body that ends with loop control does `escaped`. -/
def evaluatorOr (escaped : Run Value) (host : Host) : Nat → Eval
  | 0 => evaluator host 0
  | fuel + 1 =>
    { fuel
      expr := fun e => evalExpr (evaluatorOr escaped host fuel) e
      stmt := fun s => execStmt (evaluatorOr escaped host fuel) s
      call := fun f args => callValueOr escaped host (evaluatorOr escaped host fuel) f args }

/-- Runs a program, and does `escaped` if it ends with loop control. -/
def executeOr (escaped : Run Value) (r : Eval) (program : List Stmt) : Run Value := do
  Run.report .debug ("executing " ++ toString program.length ++ " statement(s)")
  let kept := (← get).registers
  match ← Run.attempt (runStmts r .null program) with
  | .ok completion =>
    Run.report .debug "execution finished"
    completion.valueOr escaped
  | .error f =>
    Run.setRegisters kept
    Run.report .warn ("uncaught " ++ f.display)
    throw (.failure f)

/-! ## Loops take it up -/

/-- How a loop ends after a pass says so. -/
def LoopEnd (ended : Option Completion) : Prop :=
  ∀ completion, ended = some completion → completion.isLoopControl = false

theorem Completion.loopEnd_leavesLoop? (c : Completion) : LoopEnd c.leavesLoop? := by
  intro completion h
  cases c <;> cases h <;> rfl

open Run.Delivers in
/-- No form of loop lets loop control through, whatever its parts do. -/
theorem delivers_execStmt (r : Eval) {s : Stmt} (hs : s.isLoop = true) :
    (execStmt r s).Delivers (·.isLoopControl = false) := by
  have hend : loopEnd.isLoopControl = false := rfl
  have hbody (body : Stmt) : (r.stmt body).Delivers fun c => LoopEnd c.leavesLoop? :=
    fun _ c _ _ => c.loopEnd_leavesLoop?
  cases s with
  | whileLoop condition body position =>
    exact inLoop (delivers_iterate (delivers_whilePass hend (hbody body) condition) _)
  | doWhile body condition position =>
    exact inLoop (delivers_iterate (delivers_doWhilePass hend (hbody body) condition) _)
  | forLoop init condition update body position =>
    exact inChild (bind fun _ =>
      inLoop (delivers_iterate (delivers_forPass hend (hbody body) condition update) _))
  | forEach name constant traversal subject body position =>
    exact bind fun _ => bind fun _ => inLoop (delivers_eachPass hend (hbody body) name _ _)
  | _ => cases hs

/-! ## Outside of loops there is none -/

theorem Run.Along.loopDepth_eq {act : Run α} (hact : act.Along SameRegisters) {m m' : Machine}
    {a : α} (h : act m = .ok a m') : m'.loopDepth = m.loopDepth := by
  have hm := hact m
  rw [Run.after, h] at hm
  exact (sameRegisters_iff.mp hm).2.1

/-- The computation ends with loop control only inside of a loop. -/
def Run.Confined (act : Run Completion) : Prop :=
  ∀ m c m', act m = .ok c m' → c.isLoopControl = true → 0 < m.loopDepth

namespace Run.Confined

theorem of_delivers {act : Run Completion} (h : act.Delivers (·.isLoopControl = false)) :
    act.Confined := by
  intro m c m' hok hc
  rw [h m c m' hok] at hc
  cases hc

/-- What ran before has put the loop depth back. -/
theorem bind {x : Run α} {f : α → Run Completion} (hx : x.Along SameRegisters)
    (hf : ∀ a, Confined (f a)) : Confined (x >>= f) := by
  intro m c m' hok hc
  obtain ⟨a, m₁, hxm, hfa⟩ := of_bind_eq_ok hok
  rw [← hx.loopDepth_eq hxm]
  exact hf a m₁ c m' hfa hc

theorem inScope {act : Run Completion} (scope : Scope) (h : Confined act) :
    Confined (Run.inScope scope act) := by
  intro m c m' hok hc
  obtain ⟨m₁, hact⟩ := of_bracket_eq_ok hok
  exact h { m with scope } c m₁ hact hc

theorem inChildWith {act : Run Completion} (name : String) (value : Value) (mutable : Bool)
    (h : Confined act) : Confined (Run.inChildWith name value mutable act) := by
  have law := runRelation_sameRegisters
  exact bind (along_scope law) fun _ => bind (.update law _) fun child =>
    bind (.write law _) fun _ => inScope child h

end Run.Confined

section Statements

open Run.Along

variable {r : Eval} (hr : r.Along SameRegisters) (hstmt : ∀ s, (r.stmt s).Confined)

include hr hstmt

theorem confined_runStmts : ∀ (stmts : List Stmt) (last : Value),
    (runStmts r last stmts).Confined := by
  intro stmts
  induction stmts with
  | nil => intro last; exact .of_delivers (.pure rfl)
  | cons stmt rest ih =>
    intro last m c m' hok hc
    obtain ⟨first, m₁, hfirst, hrest⟩ := Run.of_bind_eq_ok hok
    cases first with
    | normal value =>
      rw [← (hr.stmt stmt).loopDepth_eq hfirst]
      exact ih value m₁ c m' hrest hc
    | returned | broke | continued =>
      cases hrest
      exact hstmt stmt m _ _ hfirst hc

theorem confined_runBlock (stmts : List Stmt) : (runBlock r stmts).Confined := by
  have law := runRelation_sameRegisters
  exact .bind (getMachine law) fun _ => .bind (update law _) fun child =>
    .inScope child (confined_runStmts hr hstmt stmts _)

theorem confined_runGuarded (body : List Stmt) (handler : Option Handler) :
    (runGuarded r body handler).Confined := by
  have hbody := attempt (along_runBlock runRelation_sameRegisters hr body)
  intro m c m' hok hc
  obtain ⟨outcome, m₁, hattempt, hrest⟩ := Run.of_bind_eq_ok hok
  split at hrest
  · next f handler =>
    rw [← hbody.loopDepth_eq hattempt]
    have hhandler := Run.Confined.inChildWith handler.param (.string f.message) true
      (confined_runStmts hr hstmt handler.body .null)
    exact hhandler m₁ c m' hrest hc
  · obtain rfl := Run.of_resume_eq_ok hrest
    exact confined_runBlock hr hstmt body m c m₁ (Run.of_attempt_eq_ok hattempt) hc

theorem confined_runTry (body : List Stmt) (handler : Option Handler)
    (cleanup : Option (List Stmt)) : (runTry r body handler cleanup).Confined := by
  cases cleanup with
  | none => exact confined_runGuarded hr hstmt body handler
  | some cleanup =>
    have hguarded := attempt (along_runGuarded runRelation_sameRegisters hr body handler)
    intro m c m' hok hc
    obtain ⟨outcome, m₁, hattempt, hrest⟩ := Run.of_bind_eq_ok hok
    obtain ⟨ended, m₂, hcleanup, hrest⟩ := Run.of_bind_eq_ok hrest
    cases ended with
    | normal value =>
      -- The cleanup leaves the end of what it follows as it was.
      obtain rfl := Run.of_resume_eq_ok hrest
      exact confined_runGuarded hr hstmt body handler m c m₁ (Run.of_attempt_eq_ok hattempt) hc
    | returned | broke | continued =>
      cases hrest
      rw [← hguarded.loopDepth_eq hattempt]
      exact confined_runBlock hr hstmt cleanup m₁ _ _ hcleanup hc

/-- Every form of statement, given its parts. -/
theorem confined_execStmt (s : Stmt) : (execStmt r s).Confined := by
  have law := runRelation_sameRegisters
  cases s with
  | expr e => exact .of_delivers (.bind fun _ => .pure rfl)
  | declare name constant init position =>
    exact .of_delivers (.bind fun _ => .bind fun _ => .pure rfl)
  | ifElse condition whenTrue whenFalse position =>
    refine .bind (hr.expr condition) fun v => ?_
    split
    · exact hstmt whenTrue
    · cases whenFalse with
      | some stmt => exact hstmt stmt
      | none => exact .of_delivers (.pure rfl)
  | ret value position => exact .of_delivers (.bind fun _ => .pure rfl)
  | block stmts position => exact confined_runBlock hr hstmt stmts
  | whileLoop | doWhile | forLoop | forEach => exact .of_delivers (delivers_execStmt r rfl)
  | breakLoop position | continueLoop position =>
    intro m c m' hok hc
    simp only [execStmt, Run.loopControl] at hok
    split at hok
    · cases hok
    · next hinside => exact Nat.pos_of_ne_zero hinside
  | tryCatch body handler cleanup position => exact confined_runTry hr hstmt body handler cleanup
  | throw value position =>
    refine .of_delivers (.bind fun _ => ?_)
    intro m c m' hok
    cases hok
  | function d =>
    refine .of_delivers (.bind fun f => ?_)
    dsimp only
    split
    · exact .bind fun _ => .pure rfl
    · exact .pure rfl

end Statements

theorem evaluator_confined {host : Host} (hhost : host.Along SameRegisters) :
    ∀ fuel s, ((evaluator host fuel).stmt s).Confined := by
  intro fuel
  induction fuel with
  | zero => intro s m c m' hok; cases hok
  | succ fuel ih =>
    exact confined_execStmt (evaluator_along runRelation_sameRegisters hhost fuel) ih

/-! ## Function bodies and programs -/

theorem Completion.valueOr_eq {c : Completion} (hc : c.isLoopControl = false)
    (escaped : Run Value) : c.valueOr escaped = pure c.value := by
  cases c with
  | normal | returned => rfl
  | broke | continued => cases hc

theorem Run.Confined.not_loopControl {act : Run Completion} (h : act.Confined) {m m' : Machine}
    {c : Completion} (hm : m.loopDepth = 0) (hok : act m = .ok c m') :
    c.isLoopControl = false := by
  cases hc : c.isLoopControl with
  | false => rfl
  | true =>
    have hinside := h m c m' hok hc
    omega

section Bodies

variable {r : Eval} (hr : r.Along SameRegisters) (hstmt : ∀ s, (r.stmt s).Confined)

include hr hstmt

theorem inCall_runBodyOr (escaped : Run Value) (scope : Scope) (body : FunctionBody) :
    Run.inCall scope (runBodyOr escaped r body) = Run.inCall scope (runBody r body) := by
  cases body with
  | expr value => rfl
  | block stmts =>
    funext m
    -- A call begins outside of all loops, however many are open around it.
    let entered : Machine := { m with scope, loopDepth := 0, callDepth := m.callDepth + 1 }
    have hbody : runBodyOr escaped r (.block stmts) entered = runBody r (.block stmts) entered := by
      simp only [runBodyOr, runBody, Bind.bind, EStateM.bind]
      cases hrun : runStmts r .null stmts entered with
      | error stop m' => rfl
      | ok c m' =>
        have hc := (confined_runStmts hr hstmt stmts .null).not_loopControl rfl hrun
        simp only [Completion.valueOr_eq hc]
    simp only [Run.inCall, Run.bracket, entered] at hbody ⊢
    rw [hbody]

theorem callValueOr_eq (escaped : Run Value) (host : Host) (callee : Value) (args : List Value) :
    callValueOr escaped host r callee args = callValue host r callee args := by
  have huser : callUserOr escaped r = callUser r := by
    funext d closure args
    simp only [callUserOr, callUser, inCall_runBodyOr hr hstmt]
  unfold callValueOr
  rw [huser]
  rfl

theorem executeOr_eq (escaped : Run Value) (program : List Stmt) {m : Machine}
    (hm : m.loopDepth = 0) : executeOr escaped r program m = execute r program m := by
  -- The report with which both begin leaves the loop depth as it is.
  let begun := m.report .debug ("executing " ++ toString program.length ++ " statement(s)")
  have hbegun : begun.loopDepth = 0 := by
    rw [← hm]
    exact congrArg Registers.loopDepth (Machine.registers_report m _ _)
  show EStateM.bind (Run.attempt (runStmts r .null program)) _ begun =
    EStateM.bind (Run.attempt (runStmts r .null program)) _ begun
  unfold EStateM.bind Run.attempt
  cases hrun : runStmts r .null program begun with
  | error stop m' => cases stop <;> rfl
  | ok c m' =>
    have hc := (confined_runStmts hr hstmt program .null).not_loopControl hbegun hrun
    simp only [Completion.valueOr_eq hc]

end Bodies

theorem evaluatorOr_eq (escaped : Run Value) {host : Host} (hhost : host.Along SameRegisters) :
    ∀ fuel, evaluatorOr escaped host fuel = evaluator host fuel := by
  intro fuel
  induction fuel with
  | zero => rfl
  | succ fuel ih =>
    have hr := evaluator_along runRelation_sameRegisters hhost fuel
    have hcall := callValueOr_eq hr (evaluator_confined hhost fuel) escaped host
    simp only [evaluatorOr, evaluator, ih, hcall]

/-! ## Every run -/

/-- Loop control comes out of a statement only inside of a loop, and never out of a loop. So none
comes out of statements that begin outside of loops, as function bodies and programs do, and what is
done with it there is never done. -/
theorem loop_control_stays_inside {host : Host} (hhost : host.Along SameRegisters) (fuel : Nat) :
    (∀ s m c m', (evaluator host fuel).stmt s m = .ok c m' → c.isLoopControl = true →
      0 < m.loopDepth ∧ s.isLoop = false) ∧
    (∀ stmts last m c m', m.loopDepth = 0 →
      runStmts (evaluator host fuel) last stmts m = .ok c m' → c.isLoopControl = false) ∧
    (∀ escaped, evaluatorOr escaped host fuel = evaluator host fuel) ∧
    (∀ escaped program m, m.loopDepth = 0 →
      executeOr escaped (evaluator host fuel) program m =
        execute (evaluator host fuel) program m) := by
  have hr := evaluator_along runRelation_sameRegisters hhost fuel
  have hstmt := evaluator_confined hhost fuel
  refine ⟨fun s m c m' hok hc => ⟨hstmt s m c m' hok hc, ?_⟩, fun stmts last m c m' hm hok => ?_,
    fun escaped => evaluatorOr_eq escaped hhost fuel,
    fun escaped program m hm => executeOr_eq hr hstmt escaped program hm⟩
  · cases hloop : s.isLoop with
    | false => rfl
    | true =>
      cases fuel with
      | zero => cases hok
      | succ fuel =>
        have hnone := delivers_execStmt (evaluator host fuel) hloop m c m' hok
        rw [hnone] at hc
        cases hc
  · exact (confined_runStmts hr hstmt stmts last).not_loopControl hm hok

/-- `try { throw "e" } finally { break }`, where the `break` takes the place of the failure. -/
def breakInCleanup : Stmt :=
  let p : Position := .start
  .tryCatch [.throw (.string "e" p) p] none (some [.breakLoop p]) p

theorem breakInCleanup_inside :
    let m : Machine := { Machine.new with loopDepth := 1 }
    smallHost.Along SameRegisters ∧
    (∃ m', (evaluator smallHost 10).stmt breakInCleanup m = .ok .broke m') ∧
    0 < m.loopDepth ∧ breakInCleanup.isLoop = false :=
  ⟨smallHost_along, ⟨_, rfl⟩,
    (loop_control_stays_inside smallHost_along 10).1 breakInCleanup _ .broke _ rfl rfl⟩

end Quill
