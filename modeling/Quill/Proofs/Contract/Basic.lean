import Quill.Proofs.Heap.Tables
import Quill.Proofs.Run.Delivers

/-!
# Contracts

What a run may do, as a contract: which functions may stand in the heap, how the heap may change,
at which lines a failure may be, and when it may run out of fuel. `Run.Meets` says that a
computation keeps a contract however it ends, and there is one rule for each way of putting
computations together. That the registers are put back is part of every contract.

Two things about a computation are told along with it. `names` are the names that it may bind in the
frame at work, which only statements do. A computation is `located` if its failures have lines; a
call is not, and what surrounds it attaches one.
-/

set_option autoImplicit false

namespace Quill

variable {α β : Type}

/-! ## Changes of the heap -/

/-- What evaluation does to a heap at one go, apart from making functions and frames and binding
names: it changes or makes a container, or gives a variable another value. -/
inductive Heap.Step (h : Heap) : Heap → Prop
  | idle : Step h h
  | array (a : ArrayRef) (change : Array Value → Array Value) : Step h (h.modifyArray a change)
  | object (o : ObjectRef) (change : Dict Value → Dict Value) : Step h (h.modifyObject o change)
  | allocArray (items : Array Value) : Step h (h.allocArray items).2
  | allocObject (entries : Dict Value) : Step h (h.allocObject entries).2
  | assign {f : FrameRef} {name : String} {b : Binding} (value : Value) :
      (h.frame f).get? name = some b → b.mutable = true → Step h (h.store value (.binding f name))

namespace Heap

variable {h h' : Heap}

theorem Step.functions_eq (hstep : h.Step h') : h'.functions = h.functions := by
  cases hstep <;> rfl

/-- A name stands for a slot only if its nearest binding is a variable. -/
theorem step_of_variableSlot {s : Scope} {name : String} {slot : Slot} (value : Value)
    (hslot : h.variableSlot s name = .ok slot) : h.Step (h.store value slot) := by
  unfold variableSlot at hslot
  split at hslot
  · cases hslot
  · next f b hfind =>
    split at hslot
    · next hmutable => cases hslot; exact .assign value (get?_of_findBinding? hfind) hmutable
    · cases hslot

theorem step_of_indexSlot {container key : Value} {slot : Slot} (value : Value)
    (hslot : h.indexSlot container key = .ok slot) : h.Step (h.store value slot) := by
  unfold indexSlot at hslot
  split at hslot
  · dsimp only at hslot
    split at hslot
    · split at hslot
      · cases hslot; exact .array _ _
      · cases hslot
    · cases hslot
  · cases hslot; exact .object _ _
  · cases hslot

theorem step_writeMember (h : Heap) (container : Value) (name : String) (value : Value) :
    h.Step (h.writeMember container name value) := by
  cases container with
  | object o => exact .object _ _
  | _ => exact .idle

end Heap

/-! ## Contracts -/

/-- The method calls a function for the elements of the array. -/
def ArrayMethod.takesCallback : ArrayMethod → Bool
  | .flatMap | .forEach | .map | .filter | .find | .findIndex | .someOf | .every | .reduce => true
  | _ => false

structure Contract where
  /-- What may stand in the heap as a function. -/
  function : Function → Prop
  /-- How the heap may change while a frame is at work in which names may be bound. -/
  change : FrameRef → List String → Heap → Heap → Prop
  /-- Where a failure may be. -/
  line : Nat → Prop
  /-- The run may stop for lack of fuel, with so many calls open and allowed. -/
  mayStop : Nat → Nat → Prop

namespace Contract

/-- The contract with another rule for stopping. -/
def stoppingWhen (C : Contract) (mayStop : Nat → Nat → Prop) : Contract := { C with mayStop }

variable (C : Contract)

/-- The functions of the heap are such as may stand in it. -/
def Holds (m : Machine) : Prop := ∀ f ∈ m.heap.functions, C.function f

structure Reaches (names : List String) (m m' : Machine) : Prop where
  holds : C.Holds m'
  registers : m'.registers = m.registers
  limit : m'.maxCallDepth = m.maxCallDepth
  change : C.change m.scope.frame names m.heap m'.heap

/-- A failure may be at the line, or without one if that is allowed. -/
def Locates (located : Bool) (line : Nat) : Prop := located = false ∧ line = 0 ∨ C.line line

/-- A computation that began in a state may stop so. -/
def Permits (located : Bool) (m : Machine) : Stop → Prop
  | .failure f => C.Locates located f.line
  | .outOfFuel => C.mayStop m.callDepth m.maxCallDepth

/-- A computation that began in a state may end so. -/
def Allows (names : List String) (located : Bool) (m : Machine) :
    EStateM.Result Stop Machine α → Prop
  | .ok _ m' => C.Reaches names m m'
  | .error stop m' => C.Reaches names m m' ∧ C.Permits located m stop

/-- What a contract has to allow for evaluation to keep it. Functions of the host are left out of
account. -/
structure Lawful : Prop where
  refl : ∀ f names h, C.change f names h h
  trans : ∀ {f names h₁ h₂ h₃},
    C.change f names h₁ h₂ → C.change f names h₂ h₃ → C.change f names h₁ h₃
  mono : ∀ {f names names' h h'}, names ⊆ names' → C.change f names h h' → C.change f names' h h'
  step : ∀ {f names h h'}, Heap.Step h h' → C.change f names h h'
  allocFunction : ∀ f names h g, C.change f names h (h.allocFunction g).2
  bind : ∀ h s name value mutable, C.change s.frame [name] h (h.bind s name value mutable)
  /-- What is bound in a new frame is not bound in one that was there before. -/
  child : ∀ {f names h s h'}, C.change (h.childScope s).1.frame names (h.childScope s).2 h' →
    C.change f [] h h'
  noHost : ∀ name service, ¬C.function (.host name service)
  /-- A method that calls back walks over an array that may grow under way. -/
  callback : ∀ {method receiver}, C.function (.bound (.ofArray method) receiver) →
    method.takesCallback = true → ∀ calls limit, C.mayStop calls limit

/-- A contract that leaves the heap out of account. -/
theorem Lawful.of_change {C : Contract} (hchange : ∀ f names h h', C.change f names h h')
    (noHost : ∀ name service, ¬C.function (.host name service))
    (callback : ∀ {method receiver}, C.function (.bound (.ofArray method) receiver) →
      method.takesCallback = true → ∀ calls limit, C.mayStop calls limit) : C.Lawful where
  refl _ _ _ := hchange _ _ _ _
  trans _ _ := hchange _ _ _ _
  mono _ _ := hchange _ _ _ _
  step _ := hchange _ _ _ _
  allocFunction _ _ _ _ := hchange _ _ _ _
  bind _ _ _ _ _ := hchange _ _ _ _
  child _ := hchange _ _ _ _
  noHost := noHost
  callback := callback

end Contract

/-- However the computation ends, it keeps the contract. -/
def Run.Meets (C : Contract) (names : List String) (located : Bool) (act : Run α) : Prop :=
  ∀ m, C.Holds m → C.Allows names located m (act m)

namespace Contract

variable {C : Contract} {names names' : List String} {located : Bool} {m m₁ m' : Machine}

theorem Reaches.frame_eq (h : C.Reaches names m m₁) : m₁.scope.frame = m.scope.frame :=
  congrArg (·.scope.frame) h.registers

theorem Reaches.callDepth_eq (h : C.Reaches names m m₁) : m₁.callDepth = m.callDepth :=
  congrArg Registers.callDepth h.registers

/-- A change of the heap alone. -/
theorem Reaches.of_heap {heap : Heap} (holds : ∀ f ∈ heap.functions, C.function f)
    (change : C.change m.scope.frame names m.heap heap) : C.Reaches names m { m with heap } :=
  ⟨holds, rfl, rfl, change⟩

theorem Locates.line {line : Nat} (h : C.Locates true line) : C.line line := by
  rcases h with ⟨hlocated, -⟩ | hline
  · cases hlocated
  · exact hline

/-- Another contract allows the same end if it does so in both respects. -/
theorem Allows.imp {C' : Contract} {result : EStateM.Result Stop Machine α}
    (h : C.Allows names located m result)
    (hreach : ∀ m', C.Reaches names m m' → C'.Reaches names' m m')
    (hpermits : ∀ stop, C.Permits located m stop → C'.Permits located m stop) :
    C'.Allows names' located m result := by
  cases result with
  | ok a m' => exact hreach m' h
  | error stop m' => exact ⟨hreach m' h.1, hpermits stop h.2⟩

theorem Permits.of_reaches {stop : Stop} (h : C.Reaches names m m₁)
    (hstop : C.Permits located m₁ stop) : C.Permits located m stop := by
  cases stop with
  | failure f => exact hstop
  | outOfFuel =>
    simp only [Permits, h.callDepth_eq, h.limit] at hstop
    exact hstop

section Lawful

variable (law : C.Lawful)

include law

theorem Reaches.refl (hm : C.Holds m) : C.Reaches names m m := ⟨hm, rfl, rfl, law.refl _ _ _⟩

theorem Reaches.trans (h₁ : C.Reaches names m m₁) (h₂ : C.Reaches names m₁ m') :
    C.Reaches names m m' where
  holds := h₂.holds
  registers := h₂.registers.trans h₁.registers
  limit := h₂.limit.trans h₁.limit
  change := law.trans h₁.change (h₁.frame_eq ▸ h₂.change)

/-- The report and the messages are no matter of contracts. -/
theorem Reaches.report (hm : C.Holds m) (level : Level) (line : String) :
    C.Reaches names m (m.report level line) := by
  obtain ⟨events, heq⟩ := m.exists_report_eq level line
  rw [heq]
  exact ⟨hm, rfl, rfl, law.refl _ _ _⟩

theorem Reaches.record (hm : C.Holds m) (channel : Channel) (message : String) :
    C.Reaches names m (m.record channel message) := by
  obtain ⟨output, events, heq⟩ := m.exists_record_eq channel message
  rw [heq]
  exact ⟨hm, rfl, rfl, law.refl _ _ _⟩

theorem Allows.after {result : EStateM.Result Stop Machine α} (h₁ : C.Reaches names m m₁)
    (h₂ : C.Allows names located m₁ result) : C.Allows names located m result := by
  cases result with
  | ok a m' => exact h₁.trans law h₂
  | error stop m' => exact ⟨h₁.trans law h₂.1, h₂.2.of_reaches h₁⟩

end Lawful

end Contract

open Contract

namespace Run.Meets

variable {C : Contract} {names names' : List String} {located : Bool} {act : Run α}

/-! ## Weaker contracts -/

/-- Stopping may be allowed more often. -/
theorem of_stoppingWhen {mayStop : Nat → Nat → Prop}
    (h : act.Meets (C.stoppingWhen mayStop) names located)
    (hstop : ∀ calls limit, mayStop calls limit → C.mayStop calls limit) :
    act.Meets C names located := by
  intro m hm
  refine (h m hm).imp (fun m' hreach => ?_) fun stop hpermits => ?_
  · exact ⟨hreach.holds, hreach.registers, hreach.limit, hreach.change⟩
  · cases stop with
    | failure f => exact hpermits
    | outOfFuel => exact hstop _ _ hpermits

section Rules

variable (law : C.Lawful)

include law

theorem mono (hnames : names ⊆ names') (h : act.Meets C names located) :
    act.Meets C names' located := by
  intro m hm
  refine (h m hm).imp (fun m' hreach => ?_) fun stop hpermits => hpermits
  exact ⟨hreach.holds, hreach.registers, hreach.limit, law.mono hnames hreach.change⟩

/-- What binds no names may stand where names may be bound. -/
theorem anywhere (h : act.Meets C [] located) : act.Meets C names located :=
  mono law (List.nil_subset _) h

/-! ## Single steps -/

theorem pure (a : α) : (Pure.pure a : Run α).Meets C names located :=
  fun _ hm => .refl law hm

theorem throw {f : Failure} (hline : C.Locates located f.line) :
    (MonadExcept.throw (.failure f) : Run α).Meets C names located :=
  fun _ hm => ⟨.refl law hm, hline⟩

theorem fail {line : Nat} (hline : C.line line) (kind : FailureKind) :
    (Run.fail line kind : Run α).Meets C names located := throw law (.inr hline)

theorem failUnlocated (kind : FailureKind) : (Run.fail 0 kind : Run α).Meets C names false :=
  throw law (.inl ⟨rfl, rfl⟩)

theorem outOfFuel (hstop : ∀ calls limit, C.mayStop calls limit) :
    (Run.outOfFuel : Run α).Meets C names located :=
  fun _ hm => ⟨.refl law hm, hstop _ _⟩

theorem read (f : Heap → α) : (Run.read f).Meets C names located := fun _ hm => .refl law hm

theorem scope : Run.scope.Meets C names located := fun _ hm => .refl law hm

theorem update {f : Heap → α × Heap} (hf : ∀ h, Heap.Step h (f h).2) :
    (Run.update f).Meets C names located := by
  intro m hm
  refine .of_heap ?_ (law.step (hf m.heap))
  rw [(hf m.heap).functions_eq]
  exact hm

theorem write {f : Heap → Heap} (hf : ∀ h, Heap.Step h (f h)) :
    (Run.write f).Meets C names located :=
  update law (f := fun h => ((), f h)) hf

theorem allocArray (items : Array Value) : (Run.allocArray items).Meets C names located :=
  update law fun _ => .allocArray items

theorem allocObject (entries : Dict Value) : (Run.allocObject entries).Meets C names located :=
  update law fun _ => .allocObject entries

theorem allocFunction {f : Function} (hf : C.function f) :
    (Run.allocFunction f).Meets C names located := by
  intro m hm
  refine .of_heap (fun g hg => ?_) (law.allocFunction _ _ _ f)
  rcases Array.mem_push.mp hg with hg | rfl
  · exact hm g hg
  · exact hf

theorem store {line : Nat} (hline : C.line line) {find : Heap → Except FailureKind Slot}
    {value : Value} (hfind : ∀ h slot, find h = .ok slot → Heap.Step h (h.store value slot)) :
    (Run.store line find value).Meets C names located := by
  intro m hm
  unfold Run.store
  cases hslot : find m.heap with
  | ok slot =>
    have hstep := hfind m.heap slot hslot
    refine .of_heap ?_ (law.step hstep)
    rw [hstep.functions_eq]
    exact hm
  | error kind => exact ⟨.refl law hm, .inr hline⟩

theorem report (level : Level) (line : String) : (Run.report level line).Meets C names located :=
  fun _ hm => .report law hm level line

theorem record (channel : Channel) (message : String) :
    (Run.record channel message).Meets C names located :=
  fun _ hm => .record law hm channel message

/-! ## One after the other -/

/-- Of what comes second, only what the first can deliver is asked. -/
theorem bind_of_delivers {p : α → Prop} {x : Run α} {f : α → Run β}
    (hx : x.Meets C names located) (hp : x.Delivers p)
    (hf : ∀ a, p a → (f a).Meets C names located) : (x >>= f).Meets C names located := by
  intro m hm
  have hend := hx m hm
  simp only [Bind.bind, EStateM.bind]
  cases hxm : x m with
  | ok a m₁ =>
    rw [hxm] at hend
    exact .after law hend (hf a (hp m a m₁ hxm) m₁ hend.holds)
  | error stop m₁ =>
    rw [hxm] at hend
    exact hend

theorem bind {x : Run α} {f : α → Run β} (hx : x.Meets C names located)
    (hf : ∀ a, (f a).Meets C names located) : (x >>= f).Meets C names located :=
  bind_of_delivers law hx (fun _ _ _ _ => trivial) fun a _ => hf a

/-- A failure that is caught keeps its line, so it may be raised again. -/
theorem attempt_bind {x : Run α} {f : Except Failure α → Run β} (hx : x.Meets C names located)
    (hok : ∀ a, (f (.ok a)).Meets C names located)
    (herror : ∀ e, C.Locates located e.line → (f (.error e)).Meets C names located) :
    (Run.attempt x >>= f).Meets C names located := by
  intro m hm
  have hend := hx m hm
  simp only [Bind.bind, EStateM.bind, Run.attempt]
  cases hxm : x m with
  | ok a m₁ =>
    rw [hxm] at hend
    exact .after law hend (hok a m₁ hend.holds)
  | error stop m₁ =>
    rw [hxm] at hend
    cases stop with
    | failure e => exact .after law hend.1 (herror e hend.2 m₁ hend.1.holds)
    | outOfFuel => exact hend

end Rules

/-- A function that is fetched is one that may stand in the heap. -/
theorem function_bind (ref : FunctionRef) {k : Option Function → Run β}
    (hnone : (k none).Meets C names located)
    (hsome : ∀ f, C.function f → (k (some f)).Meets C names located) :
    (Run.read (·.function? ref) >>= k).Meets C names located := by
  intro m hm
  show C.Allows names located m (k (m.heap.function? ref) m)
  cases hf : m.heap.function? ref with
  | none => exact hnone m hm
  | some f => exact hsome f (hm f (Array.mem_of_getElem? hf)) m hm

theorem atLine {line : Nat} (hline : C.line line) (h : act.Meets C names false) :
    (Run.atLine line act).Meets C names true := by
  intro m hm
  have hend := h m hm
  unfold Run.atLine
  cases hact : act m with
  | ok a m' => rw [hact] at hend; exact hend
  | error stop m' =>
    rw [hact] at hend
    cases stop with
    | outOfFuel => exact hend
    | failure f =>
      refine ⟨hend.1, .inr ?_⟩
      unfold Failure.atLine
      split
      · exact hline
      · next hnonzero => exact hend.2.elim (fun h => absurd h.2 hnonzero) id

/-! ## Brackets -/

/-- A bracket around a computation that keeps a contract of its own. -/
theorem bracket {C' : Contract} {σ : Type} {keep : Machine → σ} {enter : Machine → Machine}
    {leave : σ → Machine → Machine} (h : act.Meets C' names' located)
    (henter : ∀ m, C.Holds m → C'.Holds (enter m))
    (hleave : ∀ m m', C.Holds m → C'.Reaches names' (enter m) m' →
      C.Reaches names m (leave (keep m) m'))
    (hstop : ∀ m stop, C'.Permits located (enter m) stop → C.Permits located m stop) :
    (Run.bracket keep enter leave act).Meets C names located := by
  intro m hm
  have hend := h _ (henter m hm)
  unfold Run.bracket
  dsimp only
  cases hact : act (enter m) with
  | ok a m' => rw [hact] at hend; exact hleave m m' hm hend
  | error stop m' =>
    rw [hact] at hend
    exact ⟨hleave m m' hm hend.1, hstop m stop hend.2⟩

theorem inLoop (h : act.Meets C names located) : (Run.inLoop act).Meets C names located := by
  refine bracket h (fun _ hm => hm) (fun m m' _ hend => ?_) fun m stop hstop => ?_
  · obtain ⟨holds, registers, limit, change⟩ := hend
    simp only [Machine.registers, Registers.mk.injEq] at registers
    refine ⟨holds, ?_, limit, change⟩
    simp only [Machine.registers, registers, Nat.add_sub_cancel]
  · cases stop <;> exact hstop

section Frames

variable (law : C.Lawful)

include law

theorem inChild (h : act.Meets C names located) : (Run.inChild act).Meets C [] located := by
  intro m hm
  let entered : Machine :=
    { m with heap := (m.heap.childScope m.scope).2, scope := (m.heap.childScope m.scope).1 }
  have hend : C.Allows names located entered (act entered) := h entered hm
  have hleave {m' : Machine} (hreach : C.Reaches names entered m') :
      C.Reaches [] m { m' with scope := m.scope } := by
    obtain ⟨holds, registers, limit, change⟩ := hreach
    simp only [Machine.registers, Registers.mk.injEq] at registers
    refine ⟨holds, ?_, limit, law.child change⟩
    simp only [Machine.registers, registers, entered]
  show C.Allows [] located m (Run.inScope entered.scope act { m with heap := entered.heap })
  unfold Run.inScope Run.bracket
  dsimp only
  cases hact : act entered with
  | ok a m' => rw [hact] at hend; exact hleave hend
  | error stop m' =>
    rw [hact] at hend
    refine ⟨hleave hend.1, ?_⟩
    cases stop <;> exact hend.2

theorem declare (name : String) (value : Value) (mutable : Bool) :
    (Run.declare name value mutable).Meets C [name] located :=
  fun m hm => .of_heap hm (law.bind m.heap m.scope name value mutable)

end Frames

end Run.Meets

end Quill
