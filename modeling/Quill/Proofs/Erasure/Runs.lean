import Quill.Proofs.Erasure.Basic

/-!
# Runs without positions

A run erases to another if that other one, started on the erased machine, does the same: it delivers
the same value, fails for the same reason or runs out of fuel too, and leaves the erased machine.
References are the same numbers on both sides, so values need no erasing. A failure may name another
line, and nothing but its line.

There is one rule for each way of putting runs together. Two of them are where positions could come
in: a failure that is caught goes on as a value, of which only the reason may matter, and a function
that is fetched to be called is the erased one.
-/

set_option autoImplicit false

namespace Quill

variable {α β : Type}

/-! ## The relation -/

/-- The second result is the first one without positions. -/
inductive EndErasesTo : EStateM.Result Stop Machine α → EStateM.Result Stop Machine α → Prop
  | value (a : α) {m : Machine} : m.heap.HostFree → EndErasesTo (.ok a m) (.ok a m.erase)
  | failure {f f' : Failure} {m : Machine} : f.kind = f'.kind → m.heap.HostFree →
      EndErasesTo (.error (.failure f) m) (.error (.failure f') m.erase)
  | outOfFuel {m : Machine} : m.heap.HostFree →
      EndErasesTo (.error .outOfFuel m) (.error .outOfFuel m.erase)

/-- On a machine without functions of the host, the second run does on the erased machine what the
first one does. -/
def Run.ErasesTo (act act' : Run α) : Prop :=
  ∀ m, m.heap.HostFree → EndErasesTo (act m) (act' m.erase)

/-- Evaluation of a part erases to the evaluation of the erased part. A call has no positions of its
own. -/
structure Eval.Blind (r : Eval) : Prop where
  expr : ∀ e, (r.expr e).ErasesTo (r.expr e.erase)
  stmt : ∀ s, (r.stmt s).ErasesTo (r.stmt s.erase)
  call : ∀ callee args, (r.call callee args).ErasesTo (r.call callee args)

namespace Run.ErasesTo

/-! ## Ends -/

theorem pure (a : α) : ErasesTo (Pure.pure a : Run α) (Pure.pure a) := fun _ hm => .value a hm

/-- A failure may name any line on either side. -/
theorem throw {f f' : Failure} (hkind : f.kind = f'.kind) :
    ErasesTo (MonadExcept.throw (.failure f) : Run α) (MonadExcept.throw (.failure f')) :=
  fun _ hm => .failure hkind hm

theorem fail (line line' : Nat) (kind : FailureKind) :
    ErasesTo (Run.fail line kind : Run α) (Run.fail line' kind) := throw rfl

theorem outOfFuel : ErasesTo (Run.outOfFuel : Run α) Run.outOfFuel := fun _ hm => .outOfFuel hm

/-- A step that always delivers something. -/
theorem step {value value' : Machine → α} (next next' : Machine → Machine)
    (hvalue : ∀ m, value' m.erase = value m)
    (hnext : ∀ m, m.heap.HostFree → (next m).heap.HostFree ∧ next' m.erase = (next m).erase) :
    ErasesTo (fun m => .ok (value m) (next m)) fun m => .ok (value' m) (next' m) := by
  intro m hm
  obtain ⟨hfree, herase⟩ := hnext m hm
  dsimp only
  rw [hvalue, herase]
  exact .value (value m) hfree

theorem change {g : Machine → Machine} (hg : Machine.SparesHeap g) :
    ErasesTo (fun m => .ok () (g m)) fun m => .ok () (g m) :=
  step g g (fun _ => rfl) fun m hm => ⟨by rwa [hg.heap_eq], (hg.erase_eq m).symm⟩

/-! ## One after the other -/

theorem bind {x x' : Run α} {f f' : α → Run β} (hx : ErasesTo x x')
    (hf : ∀ a, ErasesTo (f a) (f' a)) : ErasesTo (x >>= f) (x' >>= f') := by
  intro m hm
  have hxm := hx m hm
  simp only [Bind.bind, EStateM.bind]
  generalize x m = result, x' m.erase = result' at hxm
  cases hxm with
  | value a h => exact hf a _ h
  | failure hkind h => exact .failure hkind h
  | outOfFuel h => exact .outOfFuel h

/-- A failure that is caught is told apart by its reason only. -/
theorem attempt_bind {x x' : Run α} {f f' : Except Failure α → Run β} (hx : ErasesTo x x')
    (hok : ∀ a, ErasesTo (f (.ok a)) (f' (.ok a)))
    (herror : ∀ e e' : Failure, e.kind = e'.kind → ErasesTo (f (.error e)) (f' (.error e'))) :
    ErasesTo (Run.attempt x >>= f) (Run.attempt x' >>= f') := by
  intro m hm
  have hxm := hx m hm
  simp only [Bind.bind, EStateM.bind, Run.attempt]
  generalize x m = result, x' m.erase = result' at hxm
  cases hxm with
  | value a h => exact hok a _ h
  | failure hkind h => exact herror _ _ hkind _ h
  | outOfFuel h => exact .outOfFuel h

/-- A line that is attached is a line like any other. -/
theorem atLine {act act' : Run α} (line line' : Nat) (h : ErasesTo act act') :
    ErasesTo (Run.atLine line act) (Run.atLine line' act') := by
  have hkind (n : Nat) (f : Failure) : (f.atLine n).kind = f.kind := by
    unfold Failure.atLine
    split <;> rfl
  intro m hm
  have hm' := h m hm
  unfold Run.atLine
  generalize act m = result, act' m.erase = result' at hm'
  cases hm' with
  | value a h => exact .value a h
  | failure hsame h => exact .failure ((hkind _ _).trans (hsame.trans (hkind _ _).symm)) h
  | outOfFuel h => exact .outOfFuel h

/-! ## The heap -/

theorem read {f : Heap → α} (hf : Heap.Ignores f) : ErasesTo (Run.read f) (Run.read f) :=
  step id id (fun m => hf.read_erase m.heap) fun _ hm => ⟨hm, rfl⟩

theorem update {f : Heap → α × Heap} (hvalue : Heap.Ignores fun h => (f h).1)
    (hchange : Heap.Keeps fun h => (f h).2) : ErasesTo (Run.update f) (Run.update f) := by
  let next (m : Machine) : Machine := { m with heap := (f m.heap).2 }
  refine step next next (fun m => hvalue.read_erase m.heap) fun m hm => ⟨hchange.hostFree hm, ?_⟩
  exact congrArg (fun heap => { m with heap }) (hchange.change_erase m.heap)

theorem write {f : Heap → Heap} (hf : Heap.Keeps f) : ErasesTo (Run.write f) (Run.write f) :=
  update (f := fun h => ((), f h)) (fun _ _ => rfl) hf

theorem allocArray (items : Array Value) : ErasesTo (Run.allocArray items) (Run.allocArray items) :=
  update (fun _ _ => rfl) fun _ _ => rfl

theorem allocObject (entries : Dict Value) :
    ErasesTo (Run.allocObject entries) (Run.allocObject entries) :=
  update (fun _ _ => rfl) fun _ _ => rfl

/-- A new function is the one thing that is put in the heap and has positions in it. -/
theorem allocFunction {f : Function} (hf : f.ofHost = false) :
    ErasesTo (Run.allocFunction f) (Run.allocFunction f.erase) := by
  let next (g : Function) (m : Machine) : Machine := { m with heap := (m.heap.allocFunction g).2 }
  refine step (next f) (next f.erase) (fun m => ?_) fun m hm => ⟨hm.allocFunction hf, ?_⟩
  · exact congrArg (·.1) (m.heap.erase_allocFunction f)
  · exact congrArg (fun made => { m with heap := made.2 }) (m.heap.erase_allocFunction f)

/-- A function that is fetched is the erased one, and none of the host's. -/
theorem function_bind (ref : FunctionRef) {k k' : Option Function → Run β}
    (hnone : ErasesTo (k none) (k' none))
    (hsome : ∀ f : Function, f.ofHost = false → ErasesTo (k (some f)) (k' (some f.erase))) :
    ErasesTo (Run.read (·.function? ref) >>= k) (Run.read (·.function? ref) >>= k') := by
  intro m hm
  have hfetched : m.erase.heap.function? ref = (m.heap.function? ref).map Function.erase :=
    m.heap.function?_erase ref
  simp only [Bind.bind, EStateM.bind, Run.read, hfetched]
  cases hf : m.heap.function? ref with
  | none => exact hnone m hm
  | some f => exact hsome f (hm.ofHost_eq hf) m hm

theorem store (line line' : Nat) {find : Heap → Except FailureKind Slot}
    (hfind : Heap.Ignores find) (value : Value) :
    ErasesTo (Run.store line find value) (Run.store line' find value) := by
  intro m hm
  have hsame : find m.erase.heap = find m.heap := hfind.read_erase m.heap
  unfold Run.store
  rw [hsame]
  cases hslot : find m.heap with
  | ok slot => exact write (Heap.keeps_store value slot) m hm
  | error kind => exact .failure rfl hm

/-! ## Messages -/

theorem report (level : Level) (line : String) :
    ErasesTo (Run.report level line) (Run.report level line) :=
  change (Machine.sparesHeap_report level line)

theorem record (channel : Channel) (message : String) :
    ErasesTo (Run.record channel message) (Run.record channel message) :=
  change (Machine.sparesHeap_record channel message)

/-! ## Registers -/

theorem scope : ErasesTo Run.scope Run.scope := step id id (fun _ => rfl) fun _ hm => ⟨hm, rfl⟩

/-- A bracket, if what it keeps and what it changes are not of the heap. -/
theorem bracket {σ : Type} {keep : Machine → σ} {enter : Machine → Machine}
    {leave : σ → Machine → Machine} {act act' : Run α} (hkeep : ∀ m, keep m.erase = keep m)
    (henter : Machine.SparesHeap enter) (hleave : ∀ kept, Machine.SparesHeap (leave kept))
    (h : ErasesTo act act') :
    ErasesTo (Run.bracket keep enter leave act) (Run.bracket keep enter leave act') := by
  intro m hm
  rw [← henter.heap_eq] at hm
  have hinside := h _ hm
  have hfree {m' : Machine} (hm' : m'.heap.HostFree) : (leave (keep m) m').heap.HostFree := by
    rwa [(hleave _).heap_eq]
  unfold Run.bracket
  dsimp only
  rw [hkeep, ← henter.erase_eq]
  generalize act (enter m) = result, act' (enter m).erase = result' at hinside
  cases hinside <;> simp only [← (hleave _).erase_eq]
  case value h => exact .value _ (hfree h)
  case failure hkind h => exact .failure hkind (hfree h)
  case outOfFuel h => exact .outOfFuel (hfree h)

section Brackets

variable {act act' : Run α} (h : ErasesTo act act')

include h

theorem inScope (scope : Scope) : ErasesTo (Run.inScope scope act) (Run.inScope scope act') :=
  bracket (fun _ => rfl) (fun _ _ => rfl) (fun _ _ _ => rfl) h

theorem inLoop : ErasesTo (Run.inLoop act) (Run.inLoop act') :=
  bracket (fun _ => rfl) (fun _ _ => rfl) (fun _ _ _ => rfl) h

theorem inCall (scope : Scope) : ErasesTo (Run.inCall scope act) (Run.inCall scope act') :=
  bracket (fun _ => rfl) (fun _ _ => rfl) (fun _ _ _ => rfl) h

theorem inChild : ErasesTo (Run.inChild act) (Run.inChild act') := by
  -- Of the machine that is fetched, only the scope is used, which is the same on both sides.
  show ErasesTo (Run.scope >>= fun scope => Run.update (·.childScope scope) >>= (Run.inScope · act))
    (Run.scope >>= fun scope => Run.update (·.childScope scope) >>= (Run.inScope · act'))
  refine bind scope fun _ => bind (update ?_ ?_) fun child => inScope h child
  · exact fun _ _ => rfl
  · exact fun _ _ => rfl

end Brackets

end Run.ErasesTo

end Quill
