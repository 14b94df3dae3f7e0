import Quill.Proofs.Heap.Tables
import Quill.Proofs.Run.Refusals
import Quill.Proofs.Syntax.Nodes

/-!
# Disciplines

Evaluation finds values in the heap and puts them there, and works in scopes that it finds in the
heap too. A discipline says which values and scopes there may be, and which heaps. It says so for
stages, since what was not there before may be made; what may be at one stage may be at every later
one.

`Run.Keeps` is about two computations at once: where the heap is in order and the scope at work may
be, both do the same, however they end, and leave the heap in order at a later stage. There is one
rule for each way of putting computations together. The stage goes on with every step, and what was
known of a value at the one before is known at the next.
-/

set_option autoImplicit false

namespace Quill

variable {α β : Type}

structure Discipline where
  /-- What the heap has come to. -/
  Stage : Type
  /-- The second stage is later. -/
  grows : Stage → Stage → Prop
  /-- The heap is in order. -/
  heap : Stage → Heap → Prop
  /-- The value may be passed around. -/
  value : Stage → Value → Prop
  /-- The scope may be at work. -/
  scope : Stage → Scope → Prop
  /-- The node may be evaluated. -/
  node : Node → Prop
  /-- A failure may be of the kind. -/
  failure : FailureKind → Prop

namespace Discipline

variable (D : Discipline)

/-- The function may be called. Functions of the host may not. -/
def function (w : D.Stage) : Function → Prop
  | .user d s => D.node (.function d) ∧ D.scope w s
  | .builtin _ => True
  | .bound _ receiver => D.value w receiver
  | .host _ _ => False

/-- The values of an array may be passed around. -/
def values (w : D.Stage) (items : Array Value) : Prop := ∀ v ∈ items, D.value w v

/-- The values of an object may be passed around. -/
def entries (w : D.Stage) (d : Dict Value) : Prop := ∀ key v, d.get? key = some v → D.value w v

/-- What a statement ended with may be passed around. -/
def completion (w : D.Stage) : Completion → Prop
  | .normal v | .returned v => D.value w v
  | .broke | .continued => True

/-- What an attempt delivered may be gone on with. -/
def outcome (p : D.Stage → α → Prop) (w : D.Stage) : Except Failure α → Prop
  | .ok a => p w a
  | .error f => D.failure f.kind

/-- A computation may stop so. -/
def stop : Stop → Prop
  | .failure f => D.failure f.kind
  | .outOfFuel => True

/-- What evaluation asks of a discipline. -/
structure Lawful : Prop where
  refl : ∀ w, D.grows w w
  trans : ∀ {w₁ w₂ w₃}, D.grows w₁ w₂ → D.grows w₂ w₃ → D.grows w₁ w₃
  value_mono : ∀ {w w' v}, D.grows w w' → D.value w v → D.value w' v
  scope_mono : ∀ {w w' s}, D.grows w w' → D.scope w s → D.scope w' s
  /-- A value that is no reference. -/
  plain : ∀ {v : Value} w, (∀ h, v.InHeap h) → D.value w v
  -- What is in a heap in order.
  element : ∀ {w h}, D.heap w h → ∀ a, D.values w (h.array a)
  entry : ∀ {w h}, D.heap w h → ∀ o, D.entries w (h.object o)
  binding : ∀ {w h f name b}, D.heap w h → (h.frame f).get? name = some b → D.value w b.value
  fetch : ∀ {w h ref f}, D.heap w h → h.function? ref = some f → D.function w f
  -- What leaves a heap in order.
  modifyArray : ∀ {w h change} a, D.heap w h → D.values w (change (h.array a)) →
    D.heap w (h.modifyArray a change)
  modifyObject : ∀ {w h change} o, D.heap w h → D.entries w (change (h.object o)) →
    D.heap w (h.modifyObject o change)
  setBinding : ∀ {w h b} f name, D.heap w h → D.value w b.value →
    D.heap w (h.modifyFrame f (·.set name b))
  -- What is new in a heap.
  allocArray : ∀ {w h items}, D.heap w h → D.values w items →
    ∃ w', D.grows w w' ∧ D.heap w' (h.allocArray items).2 ∧ D.value w' (h.allocArray items).1
  allocObject : ∀ {w h d}, D.heap w h → D.entries w d →
    ∃ w', D.grows w w' ∧ D.heap w' (h.allocObject d).2 ∧ D.value w' (h.allocObject d).1
  allocFunction : ∀ {w h f}, D.heap w h → D.function w f →
    ∃ w', D.grows w w' ∧ D.heap w' (h.allocFunction f).2 ∧ D.value w' (h.allocFunction f).1
  child : ∀ {w h s}, D.heap w h → D.scope w s →
    ∃ w', D.grows w w' ∧ D.heap w' (h.childScope s).2 ∧ D.scope w' (h.childScope s).1
  -- What is evaluated and what may fail.
  below : ∀ {n c}, D.node n → c ∈ n.children → D.node c
  failure : ∀ kind, kind ≠ .invalidAssignmentTarget → D.failure kind

/-! ## Machines in order -/

/-- The machine is in order. -/
structure Fits (w : D.Stage) (m : Machine) : Prop where
  heap : D.heap w m.heap
  scope : D.scope w m.scope

/-- A computation leads from a machine to another. -/
structure Reaches (w : D.Stage) (m : Machine) (w' : D.Stage) (m' : Machine) : Prop where
  grows : D.grows w w'
  fits : D.Fits w' m'
  globals : m'.globals = m.globals

/-- A computation that began with the machine may end so. What it delivers is asked for `p`. -/
def Ends (p : D.Stage → α → Prop) (w : D.Stage) (m : Machine) : EStateM.Result Stop Machine α → Prop
  | .ok a m' => ∃ w', D.Reaches w m w' m' ∧ p w' a
  | .error e m' => ∃ w', D.Reaches w m w' m' ∧ D.stop e

end Discipline

/-- From a stage on, the two computations do the same and keep the discipline. -/
def Run.Keeps (D : Discipline) (w : D.Stage) (p : D.Stage → α → Prop) (act act' : Run α) : Prop :=
  ∀ w₁, D.grows w w₁ → ∀ m, D.Fits w₁ m → act' m = act m ∧ D.Ends p w₁ m (act m)

namespace Discipline

variable {D : Discipline} {p : D.Stage → α → Prop} {w w₁ w₂ : D.Stage} {m m₁ m₂ : Machine}

section Lawful

variable (law : D.Lawful)

include law

theorem Reaches.refl (h : D.Fits w m) : D.Reaches w m w m := ⟨law.refl w, h, rfl⟩

theorem Reaches.trans (h₁ : D.Reaches w m w₁ m₁) (h₂ : D.Reaches w₁ m₁ w₂ m₂) :
    D.Reaches w m w₂ m₂ :=
  ⟨law.trans h₁.grows h₂.grows, h₂.fits, h₂.globals.trans h₁.globals⟩

theorem Ends.after {result : EStateM.Result Stop Machine α} (h₁ : D.Reaches w m w₁ m₁)
    (h₂ : D.Ends p w₁ m₁ result) : D.Ends p w m result := by
  cases result with
  | ok a m' =>
    obtain ⟨w', hreach, ha⟩ := h₂
    exact ⟨w', h₁.trans law hreach, ha⟩
  | error e m' =>
    obtain ⟨w', hreach, he⟩ := h₂
    exact ⟨w', h₁.trans law hreach, he⟩

/-- The report and the messages are no matter of disciplines. -/
theorem Reaches.report (h : D.Fits w m) (level : Level) (line : String) :
    D.Reaches w m w (m.report level line) := by
  obtain ⟨events, heq⟩ := m.exists_report_eq level line
  rw [heq]
  exact ⟨law.refl w, ⟨h.heap, h.scope⟩, rfl⟩

theorem Reaches.record (h : D.Fits w m) (channel : Channel) (message : String) :
    D.Reaches w m w (m.record channel message) := by
  obtain ⟨output, events, heq⟩ := m.exists_record_eq channel message
  rw [heq]
  exact ⟨law.refl w, ⟨h.heap, h.scope⟩, rfl⟩

end Lawful

end Discipline

namespace Run.Keeps

open Discipline

variable {D : Discipline} {w w' : D.Stage} {p q : D.Stage → α → Prop} {act act' : Run α}

/-- Less may be told of what is delivered. -/
theorem imp (h : act.Keeps D w p act') (hp : ∀ w₁ a, D.grows w w₁ → p w₁ a → q w₁ a)
    (law : D.Lawful) : act.Keeps D w q act' := by
  intro w₁ hw m hm
  obtain ⟨hsame, hend⟩ := h w₁ hw m hm
  refine ⟨hsame, ?_⟩
  cases hact : act m with
  | ok a m' =>
    rw [hact] at hend
    obtain ⟨w₂, hreach, ha⟩ := hend
    exact ⟨w₂, hreach, hp w₂ a (law.trans hw hreach.grows) ha⟩
  | error e m' => rw [hact] at hend; exact hend

section Rules

variable (law : D.Lawful)

include law

/-- What is kept from a stage on is kept from a later one on. -/
theorem mono (hw : D.grows w w') (h : act.Keeps D w p act') : act.Keeps D w' p act' :=
  fun w₁ hw₁ => h w₁ (law.trans hw hw₁)

/-! ## Single steps -/

theorem pure {a : α} (ha : ∀ w₁, D.grows w w₁ → p w₁ a) :
    (Pure.pure a : Run α).Keeps D w p (Pure.pure a) :=
  fun w₁ hw _ hm => ⟨rfl, w₁, .refl law hm, ha w₁ hw⟩

theorem throw {e : Stop} (he : D.stop e) :
    (MonadExcept.throw e : Run α).Keeps D w p (MonadExcept.throw e) :=
  fun w₁ _ _ hm => ⟨rfl, w₁, .refl law hm, he⟩

theorem outOfFuel : (Run.outOfFuel : Run α).Keeps D w p Run.outOfFuel := throw law trivial

theorem fail (line : Nat) {kind : FailureKind} (hkind : D.failure kind) :
    (Run.fail line kind : Run α).Keeps D w p (Run.fail line kind) := throw law hkind

theorem read {f : Heap → α} (hf : ∀ w₁ h, D.grows w w₁ → D.heap w₁ h → p w₁ (f h)) :
    (Run.read f).Keeps D w p (Run.read f) :=
  fun w₁ hw _ hm => ⟨rfl, w₁, .refl law hm, hf w₁ _ hw hm.heap⟩

theorem scope : Run.scope.Keeps D w D.scope Run.scope :=
  fun w₁ _ _ hm => ⟨rfl, w₁, .refl law hm, hm.scope⟩

theorem getMachine : (get : Run Machine).Keeps D w (fun w₁ m => D.scope w₁ m.scope) get :=
  fun w₁ _ _ hm => ⟨rfl, w₁, .refl law hm, hm.scope⟩

theorem update {f : Heap → α × Heap} (hf : ∀ w₁ h, D.grows w w₁ → D.heap w₁ h →
      ∃ w₂, D.grows w₁ w₂ ∧ D.heap w₂ (f h).2 ∧ p w₂ (f h).1) :
    (Run.update f).Keeps D w p (Run.update f) := by
  intro w₁ hw m hm
  obtain ⟨w₂, hgrows, hheap, ha⟩ := hf w₁ m.heap hw hm.heap
  exact ⟨rfl, w₂, ⟨hgrows, ⟨hheap, law.scope_mono hgrows hm.scope⟩, rfl⟩, ha⟩

theorem write {f : Heap → Heap} (hf : ∀ w₁ h, D.grows w w₁ → D.heap w₁ h → D.heap w₁ (f h)) :
    (Run.write f).Keeps D w (fun _ _ => True) (Run.write f) :=
  update law (f := fun h => ((), f h)) fun w₁ h hw hh =>
    ⟨w₁, law.refl w₁, hf w₁ h hw hh, trivial⟩

theorem report (level : Level) (line : String) :
    (Run.report level line).Keeps D w (fun _ _ => True) (Run.report level line) :=
  fun w₁ _ _ hm => ⟨rfl, w₁, .report law hm level line, trivial⟩

theorem record (channel : Channel) (message : String) :
    (Run.record channel message).Keeps D w (fun _ _ => True) (Run.record channel message) :=
  fun w₁ _ _ hm => ⟨rfl, w₁, .record law hm channel message, trivial⟩

theorem store (line : Nat) {find : Heap → Except FailureKind Slot} {value : Value}
    (hslot : ∀ w₁ h slot, D.grows w w₁ → D.heap w₁ h → find h = .ok slot →
      D.heap w₁ (h.store value slot))
    (hkind : ∀ h kind, find h = .error kind → D.failure kind) :
    (Run.store line find value).Keeps D w (fun _ _ => True) (Run.store line find value) := by
  intro w₁ hw m hm
  refine ⟨rfl, ?_⟩
  unfold Run.store
  cases hfind : find m.heap with
  | ok slot =>
    have hheap := hslot w₁ m.heap slot hw hm.heap hfind
    exact ⟨w₁, ⟨law.refl w₁, ⟨hheap, hm.scope⟩, rfl⟩, trivial⟩
  | error kind => exact ⟨w₁, .refl law hm, hkind m.heap kind hfind⟩

/-! ## One after the other -/

theorem bind {x x' : Run α} {f f' : α → Run β} {q : D.Stage → β → Prop} (hx : x.Keeps D w p x')
    (hf : ∀ w₁ a, D.grows w w₁ → p w₁ a → (f a).Keeps D w₁ q (f' a)) :
    (x >>= f).Keeps D w q (x' >>= f') := by
  intro w₁ hw m hm
  obtain ⟨hsame, hend⟩ := hx w₁ hw m hm
  simp only [Bind.bind, EStateM.bind, hsame]
  cases hxm : x m with
  | error e m' =>
    rw [hxm] at hend
    exact ⟨rfl, hend⟩
  | ok a m' =>
    rw [hxm] at hend
    obtain ⟨w₂, hreach, ha⟩ := hend
    -- The second one starts at the stage that the first one came to.
    obtain ⟨hsame', hend'⟩ :=
      hf w₂ a (law.trans hw hreach.grows) ha w₂ (law.refl w₂) m' hreach.fits
    exact ⟨hsame', .after law hreach hend'⟩

/-! ## Registers -/

/-- What works in a scope of its own gives back the one that was at work before, if it changed it. -/
theorem bracket {σ : Type} {keep : Machine → σ} {enter : Machine → Machine}
    {leave : σ → Machine → Machine}
    (henter : ∀ m, (enter m).heap = m.heap ∧ (enter m).globals = m.globals ∧
      ((enter m).scope = m.scope ∨ D.scope w (enter m).scope))
    (hleave : ∀ m m', (leave (keep m) m').heap = m'.heap ∧
      (leave (keep m) m').globals = m'.globals ∧
      ((leave (keep m) m').scope = m'.scope ∨ (leave (keep m) m').scope = m.scope))
    (h : act.Keeps D w p act') :
    (Run.bracket keep enter leave act).Keeps D w p (Run.bracket keep enter leave act') := by
  intro w₁ hw m hm
  obtain ⟨hheap, hglobals, hscope⟩ := henter m
  have hentered : D.Fits w₁ (enter m) := by
    refine ⟨hheap ▸ hm.heap, ?_⟩
    rcases hscope with hscope | hscope
    · exact hscope ▸ hm.scope
    · exact law.scope_mono hw hscope
  have hleft {w₂ : D.Stage} {m' : Machine} (hreach : D.Reaches w₁ (enter m) w₂ m') :
      D.Reaches w₁ m w₂ (leave (keep m) m') := by
    obtain ⟨hheap', hglobals', hscope'⟩ := hleave m m'
    refine ⟨hreach.grows, ⟨hheap' ▸ hreach.fits.heap, ?_⟩, ?_⟩
    · rcases hscope' with hscope' | hscope'
      · exact hscope' ▸ hreach.fits.scope
      · exact hscope' ▸ law.scope_mono hreach.grows hm.scope
    · rw [hglobals', hreach.globals, hglobals]
  obtain ⟨hsame, hend⟩ := h w₁ hw (enter m) hentered
  simp only [Run.bracket, hsame]
  refine ⟨trivial, ?_⟩
  cases hact : act (enter m) with
  | ok a m' =>
    rw [hact] at hend
    obtain ⟨w₂, hreach, ha⟩ := hend
    exact ⟨w₂, hleft hreach, ha⟩
  | error e m' =>
    rw [hact] at hend
    obtain ⟨w₂, hreach, he⟩ := hend
    exact ⟨w₂, hleft hreach, he⟩

theorem inScope {s : Scope} (hs : D.scope w s) (h : act.Keeps D w p act') :
    (Run.inScope s act).Keeps D w p (Run.inScope s act') :=
  bracket law (fun _ => ⟨rfl, rfl, .inr hs⟩) (fun _ _ => ⟨rfl, rfl, .inr rfl⟩) h

theorem inLoop (h : act.Keeps D w p act') : (Run.inLoop act).Keeps D w p (Run.inLoop act') :=
  bracket law (fun _ => ⟨rfl, rfl, .inl rfl⟩) (fun _ _ => ⟨rfl, rfl, .inl rfl⟩) h

theorem inCall {s : Scope} (hs : D.scope w s) (h : act.Keeps D w p act') :
    (Run.inCall s act).Keeps D w p (Run.inCall s act') :=
  bracket law (fun _ => ⟨rfl, rfl, .inr hs⟩) (fun _ _ => ⟨rfl, rfl, .inr rfl⟩) h

/-- A frame inside of a scope. -/
theorem childScope {s : Scope} (hs : D.scope w s) :
    (Run.update (·.childScope s)).Keeps D w D.scope (Run.update (·.childScope s)) :=
  update law fun _ _ hw hh => law.child hh (law.scope_mono hw hs)

theorem inChild (h : act.Keeps D w p act') : (Run.inChild act).Keeps D w p (Run.inChild act') :=
  bind law (getMachine law) fun _ _ hw hs => bind law (childScope law hs) fun _ _ hw₁ hchild =>
    inScope law hchild (mono law (law.trans hw hw₁) h)

/-- Binding a name in a scope. -/
theorem bindIn {s : Scope} {value : Value} (hvalue : D.value w value) (name : String)
    (mutable : Bool) :
    (Run.write (·.bind s name value mutable)).Keeps D w (fun _ _ => True)
      (Run.write (·.bind s name value mutable)) :=
  write law fun _ _ hw hh => law.setBinding _ _ hh (law.value_mono hw hvalue)

theorem declare {value : Value} (hvalue : D.value w value) (name : String) (mutable : Bool) :
    (Run.declare name value mutable).Keeps D w (fun _ _ => True)
      (Run.declare name value mutable) :=
  bind law (scope law) fun _ _ hw _ => bindIn law (law.value_mono hw hvalue) name mutable

theorem inChildWith {value : Value} (hvalue : D.value w value) (name : String) (mutable : Bool)
    (h : act.Keeps D w p act') :
    (Run.inChildWith name value mutable act).Keeps D w p
      (Run.inChildWith name value mutable act') :=
  bind law (scope law) fun _ _ hw hs => bind law (childScope law hs) fun _ _ hw₁ hchild =>
    have hgrows := law.trans hw hw₁
    bind law (bindIn law (law.value_mono hgrows hvalue) name mutable) fun _ _ hw₂ _ =>
      inScope law (law.scope_mono hw₂ hchild) (mono law (law.trans hgrows hw₂) h)

/-- Registers put back by hand. -/
theorem setRegisters {kept : Registers} (hscope : D.scope w kept.scope) :
    (Run.setRegisters kept).Keeps D w (fun _ _ => True) (Run.setRegisters kept) :=
  fun w₁ hw _ hm =>
    ⟨rfl, w₁, ⟨law.refl w₁, ⟨hm.heap, law.scope_mono hw hscope⟩, rfl⟩, trivial⟩

/-! ## Failures -/

omit law in
theorem atLine (line : Nat) (h : act.Keeps D w p act') :
    (Run.atLine line act).Keeps D w p (Run.atLine line act') := by
  intro w₁ hw m hm
  obtain ⟨hsame, hend⟩ := h w₁ hw m hm
  simp only [Run.atLine, hsame]
  refine ⟨trivial, ?_⟩
  cases hact : act m with
  | ok a m' => rw [hact] at hend; exact hend
  | error e m' =>
    rw [hact] at hend
    cases e with
    | outOfFuel => exact hend
    | failure f =>
      obtain ⟨w₂, hreach, hkind⟩ := hend
      refine ⟨w₂, hreach, ?_⟩
      show D.failure (f.atLine line).kind
      unfold Failure.atLine
      split
      · exact hkind
      · exact hkind

omit law in
theorem attempt (h : act.Keeps D w p act') :
    (Run.attempt act).Keeps D w (D.outcome p) (Run.attempt act') := by
  intro w₁ hw m hm
  obtain ⟨hsame, hend⟩ := h w₁ hw m hm
  simp only [Run.attempt, hsame]
  refine ⟨trivial, ?_⟩
  cases hact : act m with
  | ok a m' => rw [hact] at hend; exact hend
  | error e m' =>
    rw [hact] at hend
    cases e with
    | outOfFuel => exact hend
    | failure f => exact hend

theorem resume {outcome : Except Failure α} (h : ∀ w₁, D.grows w w₁ → D.outcome p w₁ outcome) :
    (Run.resume outcome).Keeps D w p (Run.resume outcome) := by
  cases outcome with
  | ok a => exact pure law h
  | error f => exact throw law (h w (law.refl w))

end Rules

end Run.Keeps

end Quill
