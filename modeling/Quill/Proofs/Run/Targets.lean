import Quill.Proofs.Discipline.Sessions
import Quill.Proofs.Syntax.Wellformed

/-!
# What assignments refuse in a run

In a run of scripts alone all code is well-formed: that of the program, and that of the functions in
the heap, which keep what the parser made. So whatever is evaluated has a target that can be
written, and an assignment is refused for one reason only, that a value with an index behind it is
neither an array nor an object.

The evaluator with its refusals left open shows both. What it is told to do about other targets does
not matter to a run, so it never comes to them. And once it is told to do something else about values
that have no parts, nothing fails as refused assignments do.
-/

set_option autoImplicit false

namespace Quill

variable {α : Type} {m : Machine}

/-! ## Scripts alone -/

/-- The function is no function of the host, and its definition is well-formed. -/
def Function.Scripted : Function → Prop
  | .user d _ => (Node.function d).Everywhere Node.WellFormed
  | .builtin _ | .bound _ _ => True
  | .host _ _ => False

def Heap.Scripted (h : Heap) : Prop := ∀ f g, h.function? f = some g → g.Scripted

/-- What an evaluator is given to do, with a heap of scripts alone. -/
inductive Job : Type → Type
  | expr (e : Expr) : (Node.expr e).Everywhere Node.WellFormed → Job Value
  | stmt (s : Stmt) : (Node.stmt s).Everywhere Node.WellFormed → Job Completion
  | call (callee : Value) (args : List Value) : Job Value
  | program (stmts : List Stmt) : (∀ s ∈ stmts, (Node.stmt s).Everywhere Node.WellFormed) → Job Value

def Job.run (r : Eval) : Job α → Run α
  | .expr e _ => r.expr e
  | .stmt s _ => r.stmt s
  | .call callee args => r.call callee args
  | .program stmts _ => execute r stmts

/-! ## The discipline -/

/-- All code is well-formed, and failures are of such kinds. -/
def scriptsDiscipline (failure : FailureKind → Prop) : Discipline where
  Stage := Unit
  grows _ _ := True
  heap _ h := h.Scripted
  value _ _ := True
  scope _ _ := True
  node n := n.Everywhere Node.WellFormed
  failure := failure

theorem Heap.Scripted.allocFunction {h : Heap} (hh : h.Scripted) {f : Function}
    (hf : f.Scripted) : (h.allocFunction f).2.Scripted := by
  intro ref g hg
  rw [Heap.function?, Heap.allocFunction, Array.getElem?_push] at hg
  split at hg
  · cases hg
    exact hf
  · exact hh ref g hg

section Discipline

variable {failure : FailureKind → Prop}

theorem function_scripts_iff (w : Unit) (f : Function) :
    (scriptsDiscipline failure).function w f ↔ f.Scripted := by
  cases f with
  | user d s => exact ⟨And.left, fun hd => ⟨hd, trivial⟩⟩
  | builtin which => exact Iff.rfl
  | bound method receiver => exact Iff.rfl
  | host name service => exact Iff.rfl

theorem scriptsDiscipline_lawful
    (hfailure : ∀ kind, kind ≠ .invalidAssignmentTarget → failure kind) :
    (scriptsDiscipline failure).Lawful where
  refl _ := trivial
  trans _ _ := trivial
  value_mono _ _ := trivial
  scope_mono _ _ := trivial
  plain _ _ := trivial
  element _ _ _ _ := trivial
  entry _ _ _ _ _ := trivial
  binding _ _ := trivial
  fetch hh hf := (function_scripts_iff _ _).mpr (hh _ _ hf)
  modifyArray _ hh _ := hh
  modifyObject _ hh _ := hh
  setBinding _ _ hh _ := hh
  allocArray hh _ := ⟨(), trivial, hh, trivial⟩
  allocObject hh _ := ⟨(), trivial, hh, trivial⟩
  allocFunction hh hf := ⟨(), trivial, hh.allocFunction ((function_scripts_iff _ _).mp hf), trivial⟩
  child hh _ := ⟨(), trivial, hh, trivial⟩
  below hn hc := hn.below (.child hc)
  failure := hfailure

/-- Well-formed code is refused for values without parts only. -/
theorem scripts_refuse {refuse refuse' : Refuse}
    (h : ∀ v line, v.isContainer = false →
      refuse' (.container v) line = refuse (.container v) line ∧
        (scriptsDiscipline failure).stop (refuse (.container v) line)) :
    (scriptsDiscipline failure).Refuses refuse refuse' where
  container hv line := h _ line hv
  -- The parser has seen to it that other targets do not come up.
  assign := by
    intro e value position hform hn
    have htarget : e.isAssignable = true := hn.here
    rw [htarget] at hform
    cases hform
  compound := by
    intro op e value position hform hn
    have htarget : e.isAssignable = true := hn.here.1
    rw [htarget] at hform
    cases hform

theorem fits_scripts (hm : m.heap.Scripted) : (scriptsDiscipline failure).Fits () m :=
  ⟨hm, trivial⟩

theorem Job.keeps (law : (scriptsDiscipline failure).Lawful) {r r' : Eval}
    (hr : r.Keeps (scriptsDiscipline failure) r') (job : Job α) :
    (job.run r).Keeps (scriptsDiscipline failure) () (fun _ _ => True) (job.run r') := by
  cases job with
  | expr e he => exact (hr.expr he ()).imp (fun _ _ _ _ => trivial) law
  | stmt s hs => exact (hr.stmt hs ()).imp (fun _ _ _ _ => trivial) law
  | call callee args =>
    have hcall : (r.call callee args).Keeps (scriptsDiscipline failure) ()
        (scriptsDiscipline failure).value (r'.call callee args) :=
      hr.call trivial fun _ _ => trivial
    exact hcall.imp (fun _ _ _ _ => trivial) law
  | program stmts hstmts =>
    exact (keeps_execute law hr hstmts ()).imp (fun _ _ _ _ => trivial) law

end Discipline

/-- A new machine has scripts alone. -/
theorem scripted_new : Machine.new.heap.Scripted := by
  have law : (scriptsDiscipline fun _ => True).Lawful :=
    scriptsDiscipline_lawful fun _ _ => trivial
  obtain ⟨w', -, hfits⟩ := fits_new law (w := ()) (fun _ _ hf => nomatch hf) trivial
  exact hfits.heap

/-! ## Other targets -/

/-- What is told of other targets does not matter, and no code but scripts comes up. -/
theorem Job.run_eq_of_container {refuse : Refuse}
    (hsame : ∀ v line, refuse (.container v) line = Refuse.standard (.container v) line)
    (host : Host) (fuel : Nat) (job : Job α) (hm : m.heap.Scripted) :
    job.run (evaluatorBy refuse host fuel) m = job.run (evaluator host fuel) m ∧
      ((job.run (evaluator host fuel)).after m).heap.Scripted := by
  have law : (scriptsDiscipline fun _ => True).Lawful :=
    scriptsDiscipline_lawful fun _ _ => trivial
  have href : (scriptsDiscipline fun _ => True).Refuses .standard refuse :=
    scripts_refuse fun v line _ => ⟨hsame v line, trivial⟩
  have hevaluators := evaluatorBy_keeps law host href fuel
  rw [evaluatorBy_standard] at hevaluators
  have hkeeps := job.keeps law hevaluators
  obtain ⟨hresult, -⟩ := hkeeps () trivial m (fits_scripts hm)
  obtain ⟨w', hreach⟩ := hkeeps.reaches law (fits_scripts hm)
  exact ⟨hresult, hreach.fits.heap⟩

/-! ## Values without parts -/

/-- Once something else is told of values without parts, nothing fails as refused assignments do. -/
theorem Job.kind_ne_of_container {refuse : Refuse}
    (hquiet : ∀ v line f, v.isContainer = false → refuse (.container v) line = .failure f →
      f.kind ≠ .invalidAssignmentTarget)
    (host : Host) (fuel : Nat) (job : Job α) (hm : m.heap.Scripted) {f : Failure} {m' : Machine}
    (herror : job.run (evaluatorBy refuse host fuel) m = .error (.failure f) m') :
    f.kind ≠ .invalidAssignmentTarget := by
  have law : (scriptsDiscipline (· ≠ .invalidAssignmentTarget)).Lawful :=
    scriptsDiscipline_lawful fun _ hkind => hkind
  have href : (scriptsDiscipline (· ≠ .invalidAssignmentTarget)).Refuses refuse refuse := by
    refine scripts_refuse fun v line hv => ⟨rfl, ?_⟩
    cases hstop : refuse (.container v) line with
    | outOfFuel => trivial
    | failure f => exact hquiet v line f hv hstop
  have hkeeps := job.keeps law (evaluatorBy_keeps law host href fuel)
  exact hkeeps.failure law (fits_scripts hm) herror

/-! ## Compiled programs -/

/-- All trees that the parser returns are well-formed, so running a compiled program on a new machine
is a job for scripts. Such jobs are done in the same way whatever is told of targets of other forms,
and lead to more of them. And once something else is told of values without parts, none of them fails
as refused assignments do. -/
theorem assignment_needs_container {source : String} {program : List Stmt}
    (hcompile : compile source = .ok program) {elsewhere quiet : Refuse}
    (helsewhere : ∀ v line, elsewhere (.container v) line = Refuse.standard (.container v) line)
    (hquiet : ∀ v line f, v.isContainer = false → quiet (.container v) line = .failure f →
      f.kind ≠ .invalidAssignmentTarget) (host : Host) (fuel depth : Nat) :
    (∀ tokens, ∀ s ∈ (Syntax.parse tokens).statements,
      (Node.stmt s).Everywhere Node.WellFormed) ∧
    (∀ s ∈ program, (Node.stmt s).Everywhere Node.WellFormed) ∧
    (Machine.new.limitCalls depth).heap.Scripted ∧
    ∀ m : Machine, m.heap.Scripted → ∀ {α : Type} (job : Job α),
      job.run (evaluatorBy elsewhere host fuel) m = job.run (evaluator host fuel) m ∧
      ((job.run (evaluator host fuel)).after m).heap.Scripted ∧
      ∀ f m', job.run (evaluatorBy quiet host fuel) m = .error (.failure f) m' →
        f.kind ≠ .invalidAssignmentTarget := by
  have hprogram : ∀ s ∈ program, (Node.stmt s).Everywhere Node.WellFormed := by
    obtain ⟨-, rfl⟩ := of_compile_eq_ok hcompile
    exact Syntax.parse_wellFormed _
  refine ⟨Syntax.parse_wellFormed, hprogram, scripted_new, fun m hm α job => ?_⟩
  obtain ⟨hresult, hleads⟩ := job.run_eq_of_container helsewhere host fuel hm
  exact ⟨hresult, hleads, fun f m' herror => job.kind_ne_of_container hquiet host fuel hm herror⟩

/-- A number with an index behind it, on the second line. -/
def numberAsContainer : String := "let n = 1\nn[0] = 2"

/-- Stops without a failure at other targets. -/
def Refuse.targetsStop : Refuse
  | .container v, line => Refuse.standard (.container v) line
  | .target _, _ => .outOfFuel

/-- Stops without a failure at values without parts. -/
def Refuse.containersStop : Refuse
  | .container _, _ => .outOfFuel
  | .target e, line => Refuse.standard (.target e) line

/-- The assignment is refused for the number, and for nothing else. -/
theorem assignment_needs_container_number :
    ∃ (program : List Stmt) (h : ∀ s ∈ program, (Node.stmt s).Everywhere Node.WellFormed),
      compile numberAsContainer = .ok program ∧
      (Machine.new.run (execute (evaluator smallHost 9) program)).1 =
        .failed ⟨2, .invalidAssignmentTarget⟩ ∧
      (Machine.new.run (execute (evaluatorBy .containersStop smallHost 9) program)).1 =
        .outOfFuel ∧
      (Job.program program h).run (evaluatorBy .targetsStop smallHost 9) Machine.new =
        (Job.program program h).run (evaluator smallHost 9) Machine.new := by
  have hruns : (compile numberAsContainer).toOption.map (fun program =>
      ((Machine.new.run (execute (evaluator smallHost 9) program)).1,
        (Machine.new.run (execute (evaluatorBy .containersStop smallHost 9) program)).1)) =
      some (.failed ⟨2, .invalidAssignmentTarget⟩, .outOfFuel) := by
    decide +kernel
  cases hcompile : compile numberAsContainer with
  | ok program =>
    rw [hcompile] at hruns
    obtain ⟨hstandard, hstops⟩ := Prod.mk.inj (Option.some.inj hruns)
    have hsame (v : Value) (line : Nat) : Refuse.targetsStop (.container v) line =
        Refuse.standard (.container v) line := rfl
    have hquiet (v : Value) (line : Nat) (f : Failure) (_ : v.isContainer = false)
        (hstop : Refuse.containersStop (.container v) line = .failure f) :
        f.kind ≠ .invalidAssignmentTarget := nomatch hstop
    obtain ⟨-, hprogram, hnew, hjobs⟩ :=
      assignment_needs_container hcompile hsame hquiet smallHost 9 defaultMaxCallDepth
    obtain ⟨hresult, -, -⟩ := hjobs Machine.new hnew (.program program hprogram)
    exact ⟨program, hprogram, rfl, hstandard, hstops, hresult⟩
  | error diagnostics =>
    rw [hcompile] at hruns
    cases hruns

end Quill
