import Quill.Session
import Quill.Proofs.Run.Along

/-!
# The registers are put back

Scope, loop depth and call depth are changed by hand for the time of a block, a loop or a call. The
depths are not kept aside and put back; they are counted up before and down after, which comes to
the same only if what happens in between counts as often down as up. And a program that ends with a
value puts nothing back at all. That all of this works out is an invariant of runs, and it holds
however a run ends: with a value, with a failure at any depth, or without fuel.

The functions of the host are taken to keep the registers as long as the evaluator they are given
does. The small host is one that does.
-/

set_option autoImplicit false

namespace Quill

/-- The registers after are those before. -/
def SameRegisters (m m' : Machine) : Prop := m'.registers = m.registers

theorem sameRegisters_iff {m m' : Machine} :
    SameRegisters m m' ↔
      m'.scope = m.scope ∧ m'.loopDepth = m.loopDepth ∧ m'.callDepth = m.callDepth := by
  simp only [SameRegisters, Machine.registers, Registers.mk.injEq]

theorem Machine.registers_report (m : Machine) (level : Level) (line : String) :
    (m.report level line).registers = m.registers := by
  obtain ⟨events, heq⟩ := m.exists_report_eq level line
  rw [heq]
  rfl

theorem Machine.registers_record (m : Machine) (channel : Channel) (message : String) :
    (m.record channel message).registers = m.registers := by
  obtain ⟨output, events, heq⟩ := m.exists_record_eq channel message
  rw [heq]
  rfl

/-- No step of the machine changes the registers for good. -/
theorem runRelation_sameRegisters : RunRelation SameRegisters where
  refl _ := rfl
  trans h₁ h₂ := h₂.trans h₁
  heap _ _ := rfl
  report := Machine.registers_report
  record := Machine.registers_record
  inScope _ h := by
    obtain ⟨-, hloop, hcall⟩ := sameRegisters_iff.mp h
    exact sameRegisters_iff.mpr ⟨rfl, hloop, hcall⟩
  inLoop h := by
    obtain ⟨hscope, hloop, hcall⟩ := sameRegisters_iff.mp h
    -- What ran inside left the depth one above that of `m`, and one is what is taken away.
    refine sameRegisters_iff.mpr ⟨hscope, ?_, hcall⟩
    dsimp only at hloop ⊢
    rw [hloop, Nat.add_sub_cancel]
  inCall _ h := by
    obtain ⟨-, -, hcall⟩ := sameRegisters_iff.mp h
    refine sameRegisters_iff.mpr ⟨rfl, rfl, ?_⟩
    dsimp only at hcall ⊢
    rw [hcall, Nat.add_sub_cancel]
  setRegisters _ := rfl

/-! ## A host that keeps them -/

theorem Service.keeps_setLimit (depth : Nat) : (Service.setLimit depth).Along SameRegisters :=
  fun _ => rfl

theorem Service.keeps_execSource {r : Eval} (hr : r.Along SameRegisters) (source : String) :
    (Service.execSource r source).Along SameRegisters := by
  unfold Service.execSource
  split
  · exact along_execute runRelation_sameRegisters hr _
  · exact Run.Along.fail runRelation_sameRegisters _ _

theorem Service.keeps_run {r : Eval} (hr : r.Along SameRegisters) (service : Service)
    (args : List Value) : (service.run r args).Along SameRegisters := by
  have law := runRelation_sameRegisters
  unfold Service.run
  split
  · exact .pure law _
  · exact .pure law _
  · exact .allocArray law _
  · exact .fail law _ _
  · exact .fail law _ _
  · exact hr.call _ _
  · split
    · exact .pure law _
    · exact .pure law _
  · exact keeps_execSource hr _
  · exact keeps_execSource hr _
  · exact .bind law (keeps_setLimit _) fun _ => .pure law _
  · exact .bind law (keeps_setLimit _) fun _ => .pure law _

theorem smallHost_along : smallHost.Along SameRegisters := by
  intro service r args hr
  unfold smallHost
  split
  · exact Service.keeps_run hr _ _
  · exact .pure runRelation_sameRegisters _

/-! ## Every run -/

/-- However a program, a call, a statement or an expression ends, the registers are as they were. -/
theorem registers_after_run {host : Host} (hhost : host.Along SameRegisters) (fuel : Nat)
    (m : Machine) :
    (∀ program, ((execute (evaluator host fuel) program).after m).registers = m.registers) ∧
    (∀ callee args, (((evaluator host fuel).call callee args).after m).registers = m.registers) ∧
    (∀ stmt, (((evaluator host fuel).stmt stmt).after m).registers = m.registers) ∧
    (∀ expr, (((evaluator host fuel).expr expr).after m).registers = m.registers) := by
  have law := runRelation_sameRegisters
  have hr := evaluator_along law hhost fuel
  refine ⟨fun program => ?_, fun callee args => ?_, fun stmt => ?_, fun expr => ?_⟩
  · exact along_execute law hr program m
  · exact hr.call callee args m
  · exact hr.stmt stmt m
  · exact hr.expr expr m

/-- `while (true) { (() => { for (let x of "ab") { throw x } })() }`, a failure inside a loop inside
a call inside a loop. -/
def failingInside : Stmt :=
  let p : Position := .start
  let throwing : Stmt := .forEach "x" false .elements (.string "ab" p) (.throw (.ident "x" p) p) p
  let thrower : Expr :=
    .function { name := none, params := [], body := .block [throwing], position := p }
  .whileLoop (.bool true p) (.block [.expr (.call thrower [] p)] p) p

theorem registers_after_failure :
    let m : Machine := { Machine.new with loopDepth := 3, callDepth := 2 }
    smallHost.Along SameRegisters ∧
    (∃ failure m', (evaluator smallHost 100).stmt failingInside m = .error (.failure failure) m') ∧
    (((evaluator smallHost 100).stmt failingInside).after m).registers = m.registers :=
  ⟨smallHost_along, ⟨_, _, rfl⟩, (registers_after_run smallHost_along 100 _).2.2.1 failingInside⟩

end Quill
