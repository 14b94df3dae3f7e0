import Quill.Proofs.Contract.Evaluation
import Quill.Proofs.Erasure.Basic
import Quill.Proofs.Heap.Tables
import Quill.Proofs.Run.Along
import Quill.Session

/-!
# What runs do to frames

A variable can be written from anywhere, since a function keeps the frames in which it was made.
Nothing else about a frame is open to others: only a statement that runs in it binds names in it,
and no one gives a constant another value. So a run leaves a frame that was there before with the
same names, the same constants and their values, and with variables for variables. The exception is
the frame at work, in which a statement may bind the names that it declares, over constants too.
-/

set_option autoImplicit false

namespace Quill

/-- What a binding may become that is not declared anew. -/
inductive Binding.Kept : Option Binding → Option Binding → Prop
  | unbound : Kept none none
  | assigned (before after : Value) : Kept (some ⟨before, true⟩) (some ⟨after, true⟩)
  | constant (value : Value) : Kept (some ⟨value, false⟩) (some ⟨value, false⟩)

namespace Binding.Kept

theorem refl (b : Option Binding) : Kept b b := by
  rcases b with _ | ⟨value, mutable⟩
  · exact .unbound
  · cases mutable with
    | true => exact .assigned value value
    | false => exact .constant value

theorem trans {a b c : Option Binding} (hab : Kept a b) (hbc : Kept b c) : Kept a c := by
  cases hab with
  | unbound => exact hbc
  | constant value => exact hbc
  | assigned before between =>
    cases hbc with
    | assigned _ after => exact .assigned before after

end Binding.Kept

namespace Heap

variable {h h' : Heap} {f g : FrameRef}

/-- The bindings of a heap that was changed with a frame at work. Of the frames that were there
before, only the one at work may bind other names than before, and only such as are given. -/
structure KeepsFrames (f : FrameRef) (names : List String) (h h' : Heap) : Prop where
  size_le : h.frames.size ≤ h'.frames.size
  kept : ∀ g, g.index < h.frames.size → ∀ x, g ≠ f ∨ x ∉ names →
    Binding.Kept ((h.frame g).get? x) ((h'.frame g).get? x)

/-! ## Single frames -/

/-- Setting one name of one frame. -/
theorem get?_modifyFrame_set {x name : String} {b : Binding} (hg : g.index < h.frames.size)
    (hne : g ≠ f ∨ x ≠ name) :
    ((h.modifyFrame f (·.set name b)).frame g).get? x = (h.frame g).get? x := by
  by_cases hframe : g = f
  · subst hframe
    have hname := hne.resolve_left (fun h => h rfl)
    rw [frame_modifyFrame_self hg, Dict.get?_set, if_neg hname]
  · rw [frame_modifyFrame_ne hframe]

/-! ## Changes -/

namespace KeepsFrames

variable {names : List String}

theorem of_frames_eq (heq : h'.frames = h.frames) : KeepsFrames f names h h' where
  size_le := Nat.le_of_eq (by rw [heq])
  kept g _ x _ := by
    have hframe : h'.frame g = h.frame g := by rw [frame, frame, heq]
    rw [hframe]
    exact .refl _

theorem trans {h₁ h₂ h₃ : Heap} (h₁₂ : KeepsFrames f names h₁ h₂)
    (h₂₃ : KeepsFrames f names h₂ h₃) : KeepsFrames f names h₁ h₃ where
  size_le := Nat.le_trans h₁₂.size_le h₂₃.size_le
  kept g hg x hx :=
    (h₁₂.kept g hg x hx).trans (h₂₃.kept g (Nat.lt_of_lt_of_le hg h₁₂.size_le) x hx)

theorem mono {names' : List String} (hnames : names ⊆ names') (hk : KeepsFrames f names h h') :
    KeepsFrames f names' h h' where
  size_le := hk.size_le
  kept g hg x hx := hk.kept g hg x (hx.imp_right fun hx hmem => hx (hnames hmem))

/-- A variable may be given another value, in whichever frame it is. -/
theorem assign {name : String} {b : Binding} (value : Value) (hget : (h.frame g).get? name = some b)
    (hmutable : b.mutable = true) :
    KeepsFrames f names h (h.store value (.binding g name)) where
  size_le := by simp [store, modifyFrame]
  kept g' hg' x _ := by
    by_cases hslot : g' = g ∧ x = name
    · obtain ⟨rfl, rfl⟩ := hslot
      obtain ⟨before, mutable⟩ := b
      cases hmutable
      rw [store, frame_modifyFrame_self hg', Dict.get?_set, if_pos rfl, hget]
      exact .assigned before value
    · have hne : g' ≠ g ∨ x ≠ name := by
        by_cases hg : g' = g
        · exact .inr fun hx => hslot ⟨hg, hx⟩
        · exact .inl hg
      rw [store, get?_modifyFrame_set hg' hne]
      exact .refl _

theorem of_step (hstep : h.Step h') : KeepsFrames f names h h' := by
  cases hstep with
  | assign value hget hmutable => exact assign value hget hmutable
  | idle | array | object | allocArray | allocObject => exact of_frames_eq rfl

theorem bind (h : Heap) (s : Scope) (name : String) (value : Value) (mutable : Bool) :
    KeepsFrames s.frame [name] h (h.bind s name value mutable) where
  size_le := by simp [Heap.bind, modifyFrame]
  kept g hg x hx := by
    rw [Heap.bind, get?_modifyFrame_set hg (hx.imp_right (by simp))]
    exact .refl _

/-- A new frame is none of those that were there before. -/
theorem child {s : Scope} (hk : KeepsFrames (h.childScope s).1.frame names (h.childScope s).2 h') :
    KeepsFrames f [] h h' := by
  have hsize : (h.childScope s).2.frames.size = h.frames.size + 1 := Array.size_push ..
  have hle := hk.size_le
  refine ⟨by omega, fun g hg x _ => ?_⟩
  have hnew : g ≠ (h.childScope s).1.frame := by
    rintro rfl
    exact absurd hg (Nat.lt_irrefl _)
  rw [← frame_childScope s hg]
  exact hk.kept g (by omega) x (.inl hnew)

end KeepsFrames

end Heap

/-! ## Every run -/

/-- Runs without functions of the host that keep the frames. -/
def framesContract : Contract where
  function f := f.ofHost = false
  change := Heap.KeepsFrames
  line _ := True
  mayStop _ _ := True

theorem framesContract_lawful : framesContract.Lawful where
  refl _ _ _ := .of_frames_eq rfl
  trans := .trans
  mono := .mono
  step := .of_step
  allocFunction _ _ _ _ := .of_frames_eq rfl
  bind := .bind
  child := .child
  noHost _ _ h := nomatch h
  callback _ _ _ _ := trivial

theorem framesContract_admits (n : Node) : framesContract.Admits n where
  line := trivial
  method _ _ := rfl
  function _ _ := rfl
  repeats _ _ _ := trivial

theorem Run.Meets.keepsFrames {α : Type} {names : List String} {located : Bool} {act : Run α}
    (h : act.Meets framesContract names located) {m : Machine} (hm : m.heap.HostFree) :
    m.heap.KeepsFrames m.scope.frame names (act.after m).heap := by
  have hend := h m hm
  unfold Run.after
  cases hact : act m with
  | ok a m' => rw [hact] at hend; exact hend.change
  | error stop m' => rw [hact] at hend; exact hend.1.change

/-- The binding of a name in a frame, the frames around it left aside. -/
def Machine.binding? (m : Machine) (f : FrameRef) (x : String) : Option Binding :=
  (m.heap.frame f).get? x

/-- The statement runs in frames of its own. -/
def Stmt.opensFrame : Stmt → Bool
  | .block .. | .forLoop .. | .forEach .. | .tryCatch .. => true
  | _ => false

theorem Stmt.declared_eq_nil {s : Stmt} (h : s.opensFrame = true) : s.declared = [] := by
  cases s with
  | block | forLoop | forEach | tryCatch => simp only [declared]
  | _ => cases h

/-- However an expression, a call or a statement ends on a machine without functions of the host, in
each frame that was there before each name is unbound as before, the same constant as before, or a
variable as before. Only a statement that opens no frame for itself makes an exception, of the names
that it declares in the frame at work. -/
theorem bindings_after_run (host : Host) (fuel : Nat) {m : Machine} (hfree : m.heap.HostFree)
    {f : FrameRef} (hf : f.index < m.heap.frames.size) (x : String) :
    (∀ e, Binding.Kept (m.binding? f x)
      ((((evaluator host fuel).expr e).after m).binding? f x)) ∧
    (∀ callee args, Binding.Kept (m.binding? f x)
      ((((evaluator host fuel).call callee args).after m).binding? f x)) ∧
    (∀ s : Stmt, s.opensFrame = true → Binding.Kept (m.binding? f x)
      ((((evaluator host fuel).stmt s).after m).binding? f x)) ∧
    (∀ s : Stmt, f ≠ m.scope.frame ∨ x ∉ s.declared → Binding.Kept (m.binding? f x)
      ((((evaluator host fuel).stmt s).after m).binding? f x)) := by
  have hadmits (n : Node) : n.Everywhere framesContract.Admits := .of_forall framesContract_admits
  obtain ⟨hexpr, hstmt, hcall⟩ :=
    evaluator_meets framesContract_lawful host (fun _ _ => trivial) (fun _ => hadmits _) fuel
  have hkept (s : Stmt) (hx : f ≠ m.scope.frame ∨ x ∉ s.declared) :
      Binding.Kept (m.binding? f x) ((((evaluator host fuel).stmt s).after m).binding? f x) :=
    ((hstmt (hadmits (.stmt s))).keepsFrames hfree).kept f hf x hx
  refine ⟨fun e => ?_, fun callee args => ?_, fun s hs => ?_, hkept⟩
  · exact ((hexpr (hadmits (.expr e))).keepsFrames hfree).kept f hf x (.inr (by simp))
  · exact ((hcall callee args).keepsFrames hfree).kept f hf x (.inr (by simp))
  · exact hkept s (.inr (by simp [Stmt.declared_eq_nil hs]))

/-- `{ let log = true; (() => { log = null; warn = null })() }`: what is written to is first a
variable that hides a constant, and then a constant. -/
def writeToConstant : Stmt :=
  let p : Position := .start
  let write (name : String) : Stmt := .expr (.assign (.ident name p) (.null p) p)
  let writer : Expr := .function
    { name := none, params := [], body := .block [write "log", write "warn"], position := p }
  .block [.declare "log" false (some (.bool true p)) p, .expr (.call writer [] p)] p

theorem writeToConstant_keeps :
    let globals := Machine.new.globals.frame
    let after := ((evaluator smallHost 100).stmt writeToConstant).after .new
    Machine.new.heap.HostFree ∧ globals.index < Machine.new.heap.frames.size ∧
    (∃ m, (evaluator smallHost 100).stmt writeToConstant .new =
      .error (.failure ⟨1, .constReassignment "warn"⟩) m) ∧
    writeToConstant.opensFrame = true ∧
    Binding.Kept (Machine.new.binding? globals "log") (after.binding? globals "log") ∧
    Binding.Kept (Machine.new.binding? globals "warn") (after.binding? globals "warn") := by
  have hfree : Machine.new.heap.HostFree := by
    unfold Heap.HostFree
    decide
  have hglobals : Machine.new.globals.frame.index < Machine.new.heap.frames.size := by decide
  have hkept (x : String) := (bindings_after_run smallHost 100 hfree hglobals x).2.2.1
    writeToConstant rfl
  exact ⟨hfree, hglobals, ⟨_, rfl⟩, rfl, hkept "log", hkept "warn"⟩

end Quill
