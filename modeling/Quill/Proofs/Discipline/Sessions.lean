import Quill.Proofs.Discipline.Evaluation
import Quill.Proofs.Run.Along
import Quill.Session

/-!
# Sessions keep disciplines

What a host does with a machine from outside: it makes a new one with the built-in names bound, and
runs programs and calls functions on it, one after the other.
-/

set_option autoImplicit false

namespace Quill

open Discipline

variable {α : Type} {D : Discipline}

/-- The state after a computation that keeps the discipline. -/
theorem Run.Keeps.reaches {p : D.Stage → α → Prop} {w : D.Stage} {act act' : Run α} {m : Machine}
    (law : D.Lawful) (h : act.Keeps D w p act') (hm : D.Fits w m) :
    ∃ w', D.Reaches w m w' (act.after m) := by
  obtain ⟨-, hend⟩ := h w (law.refl w) m hm
  unfold Run.after
  cases hact : act m with
  | ok a m' =>
    rw [hact] at hend
    obtain ⟨w', hreach, -⟩ := hend
    exact ⟨w', hreach⟩
  | error e m' =>
    rw [hact] at hend
    obtain ⟨w', hreach, -⟩ := hend
    exact ⟨w', hreach⟩

/-- A failure is of a kind that the discipline allows. -/
theorem Run.Keeps.failure {p : D.Stage → α → Prop} {w : D.Stage} {act act' : Run α} {m m' : Machine}
    {f : Failure} (law : D.Lawful) (h : act.Keeps D w p act') (hm : D.Fits w m)
    (herror : act m = .error (.failure f) m') : D.failure f.kind := by
  obtain ⟨-, hend⟩ := h w (law.refl w) m hm
  rw [herror] at hend
  obtain ⟨w', -, hkind⟩ := hend
  exact hkind

/-- Where every failure may be, assignments may refuse as the language has it. -/
theorem Discipline.refuses_standard (hfailure : D.failure .invalidAssignmentTarget) :
    D.Refuses .standard .standard where
  container _ _ := ⟨rfl, hfailure⟩
  assign _ _ _ := ⟨rfl, hfailure⟩
  compound _ _ _ := ⟨rfl, hfailure⟩

theorem evaluator_keeps (law : D.Lawful) (hfailure : D.failure .invalidAssignmentTarget)
    (host : Host) (fuel : Nat) : (evaluator host fuel).Keeps D (evaluator host fuel) := by
  have hkeeps := evaluatorBy_keeps law host (refuses_standard hfailure) fuel
  rw [evaluatorBy_standard] at hkeeps
  exact hkeeps

/-! ## New machines -/

section New

variable (law : D.Lawful) {w : D.Stage} {h : Heap}

include law

theorem heap_installBuiltin (hh : D.heap w h) (globals : Scope) (which : Builtin) :
    ∃ w', D.grows w w' ∧ D.heap w' (installBuiltin globals h which) := by
  obtain ⟨w', hw, hheap, hvalue⟩ := law.allocFunction (f := .builtin which) hh trivial
  exact ⟨w', hw, law.setBinding _ _ hheap hvalue⟩

theorem heap_foldl_installBuiltin (globals : Scope) (all : List Builtin) :
    ∀ {w : D.Stage} {h : Heap}, D.heap w h →
      ∃ w', D.grows w w' ∧ D.heap w' (all.foldl (installBuiltin globals) h) := by
  induction all with
  | nil => exact fun hh => ⟨_, law.refl _, hh⟩
  | cons which rest ih =>
    intro w h hh
    obtain ⟨w₁, hw₁, hh₁⟩ := heap_installBuiltin law hh globals which
    obtain ⟨w₂, hw₂, hh₂⟩ := ih hh₁
    exact ⟨w₂, law.trans hw₁ hw₂, hh₂⟩

/-- Binding the built-in names leaves a heap in order. -/
theorem heap_installBuiltins (hh : D.heap w h) (globals : Scope) :
    ∃ w', D.grows w w' ∧ D.heap w' (installBuiltins globals h) := by
  obtain ⟨w₁, hw₁, hh₁⟩ := heap_foldl_installBuiltin law globals
    [.log, .warn, .error, .typeof, .parseInt, .parseFloat] hh
  obtain ⟨w₂, hw₂, hh₂, hcode⟩ := law.allocFunction (f := .builtin .fromCharCode) hh₁ trivial
  have hempty : D.entries w₂ .empty := by
    intro key v hv
    cases hv
  obtain ⟨w₃, hw₃, hh₃, hstring⟩ := law.allocObject hh₂ (entries_set hempty hcode _)
  exact ⟨w₃, law.trans hw₁ (law.trans hw₂ hw₃), law.setBinding _ _ hh₃ hstring⟩

end New

/-- Where a heap with one empty frame and nothing else is in order, so is a new machine. -/
theorem fits_new (law : D.Lawful) {w : D.Stage} (hheap : D.heap w (Heap.rootScope {}).2)
    (hscope : D.scope w (Heap.rootScope {}).1) : ∃ w', D.grows w w' ∧ D.Fits w' Machine.new := by
  obtain ⟨w', hw, hh⟩ := heap_installBuiltins law hheap (Heap.rootScope {}).1
  exact ⟨w', hw, hh, law.scope_mono hw hscope⟩

end Quill
