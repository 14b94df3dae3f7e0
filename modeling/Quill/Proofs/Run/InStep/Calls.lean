import Quill.Eval.Call

/-!
# Two runs in step

Two computations on two machines that are alike in some way. They keep in step if they come to the
same end, with the same value or for the same reason, and leave machines that are alike again. Most
often it is one computation on both machines. The second computation may also be one that is stopped
on the way, where the first one goes on; then something is left to say of where it stopped.

A way of being alike (`Likeness`) is meant to speak of what scripts do not see: the heap is the same
on both sides, and so is what decides whether one more call may be opened. There is one rule for
each way of putting runs together, and from these follow the methods of strings and arrays, the
built-in functions, and calls, as far as the bodies of functions keep in step.
-/

set_option autoImplicit false

namespace Quill

variable {α β : Type} {R P : Machine → Machine → Prop}

/-! ## Ends -/

/-- The same end, on machines that are related. -/
inductive EndsInStep (R : Machine → Machine → Prop) :
    EStateM.Result Stop Machine α → EStateM.Result Stop Machine α → Prop
  | ok (a : α) {m m' : Machine} : R m m' → EndsInStep R (.ok a m) (.ok a m')
  | error (stop : Stop) {m m' : Machine} : R m m' → EndsInStep R (.error stop m) (.error stop m')

theorem EndsInStep.imp {R S : Machine → Machine → Prop} {x x' : EStateM.Result Stop Machine α}
    (h : EndsInStep R x x') (hRS : ∀ {m m'}, R m m' → S m m') : EndsInStep S x x' := by
  cases h with
  | ok a h => exact .ok a (hRS h)
  | error stop h => exact .error stop (hRS h)

/-- The machine that is left at the end. -/
def machineAt : EStateM.Result Stop Machine α → Machine
  | .ok _ m => m
  | .error _ m => m

/-- The same end, or the second run was stopped and the first one went on past it. -/
inductive EndsOrPasses (R P : Machine → Machine → Prop) :
    EStateM.Result Stop Machine α → EStateM.Result Stop Machine α → Prop
  | inStep {x x' : EStateM.Result Stop Machine α} : EndsInStep R x x' → EndsOrPasses R P x x'
  | past {x : EStateM.Result Stop Machine α} {n : Machine} :
      P (machineAt x) n → EndsOrPasses R P x (.error .outOfFuel n)

/-! ## Keeping in step -/

/-- On related machines the computation comes to the same end, and the machines stay related. -/
def Run.InStep (R : Machine → Machine → Prop) (act : Run α) : Prop :=
  ∀ ⦃m m' : Machine⦄, R m m' → EndsInStep R (act m) (act m')

/-- The same of two computations. The second one may be stopped on the way, and then the first one
goes on with a machine that has passed that of the second one, and whatever has passed it before is
past it behind the first computation. -/
structure Run.InStepWith (R P : Machine → Machine → Prop) (act act' : Run α) : Prop where
  ends : ∀ ⦃m m' : Machine⦄, R m m' → EndsOrPasses R P (act m) (act' m')
  goesOn : ∀ ⦃m n : Machine⦄, P m n → P (machineAt (act m)) n

/-- One computation on both machines. -/
abbrev Run.Steps (R P : Machine → Machine → Prop) (act : Run α) : Prop := act.InStepWith R P act

/-- Calls keep in step. -/
def Eval.CallsInStep (R : Machine → Machine → Prop) (r : Eval) : Prop :=
  ∀ callee args, (r.call callee args).InStep R

/-- The calls of two evaluators keep in step, and both bound loops alike. -/
structure Eval.CallsInStepWith (R P : Machine → Machine → Prop) (r r' : Eval) : Prop where
  fuel : r'.fuel = r.fuel
  call : ∀ callee args, (r.call callee args).InStepWith R P (r'.call callee args)

/-- What has passed another machine stays past it, in all steps but messages. -/
structure Passing (P : Machine → Machine → Prop) : Prop where
  withHeap : ∀ {m n}, P m n → ∀ heap, P { m with heap } n
  report : ∀ {m n}, P m n → ∀ level line, P (m.report level line) n
  setRegisters : ∀ {m n}, P m n → ∀ kept kept', P (m.setRegisters kept) (n.setRegisters kept')

/-- A relation between machines that all steps preserve but those on the registers, and messages. -/
structure Likeness (R P : Machine → Machine → Prop) : Prop where
  heap : ∀ {m m'}, R m m' → m'.heap = m.heap
  callDepth : ∀ {m m'}, R m m' → m'.callDepth = m.callDepth
  maxCallDepth : ∀ {m m'}, R m m' → m'.maxCallDepth = m.maxCallDepth
  withHeap : ∀ {m m'}, R m m' → ∀ heap, R { m with heap } { m' with heap }
  report : ∀ {m m'}, R m m' → ∀ level line, R (m.report level line) (m'.report level line)
  past : Passing P

/-! ## Without stopping -/

/-- No run is stopped on the way. -/
def Never : Machine → Machine → Prop := fun _ _ => False

theorem passing_never : Passing Never where
  withHeap h := h.elim
  report h := h.elim
  setRegisters h := h.elim

theorem Run.InStep.self {act : Run α} (h : act.InStep R) : act.Steps R Never :=
  ⟨fun _ _ hm => .inStep (h hm), fun _ _ hn => hn.elim⟩

theorem Run.InStepWith.endsInStep {act act' : Run α} (h : act.InStepWith R Never act')
    {m m' : Machine} (hm : R m m') : EndsInStep R (act m) (act' m') := by
  have hends := h.ends hm
  generalize act m = out, act' m' = out' at hends
  cases hends with
  | inStep hends => exact hends
  | past hpast => exact hpast.elim

theorem Run.InStepWith.inStep {act : Run α} (h : act.Steps R Never) : act.InStep R :=
  fun _ _ hm => h.endsInStep hm

theorem Eval.CallsInStep.self {r : Eval} (h : r.CallsInStep R) : r.CallsInStepWith R Never r :=
  ⟨rfl, fun callee args => (h callee args).self⟩

namespace Run.InStepWith

/-- A computation that leaves the machine alone. -/
theorem of_same {act : Run α} (hends : act.InStep R) (hsame : ∀ m, machineAt (act m) = m) :
    act.Steps R P :=
  ⟨fun _ _ h => .inStep (hends h), fun m _ h => (hsame m).symm ▸ h⟩

theorem pure (a : α) : Steps R P (Pure.pure a : Run α) :=
  of_same (fun _ _ h => .ok a h) fun _ => rfl

theorem throw (stop : Stop) : Steps R P (MonadExcept.throw stop : Run α) :=
  of_same (fun _ _ h => .error stop h) fun _ => rfl

theorem outOfFuel : Steps R P (Run.outOfFuel : Run α) := throw _

theorem fail (line : Nat) (kind : FailureKind) : Steps R P (Run.fail line kind : Run α) := throw _

theorem resume (outcome : Except Failure α) : Steps R P (Run.resume outcome) := by
  cases outcome with
  | ok a => exact pure a
  | error f => exact throw _

/-! ## One after the other -/

theorem bind {x x' : Run α} {f f' : α → Run β} (hx : InStepWith R P x x')
    (hf : ∀ a, InStepWith R P (f a) (f' a)) : InStepWith R P (x >>= f) (x' >>= f') where
  ends m m' h := by
    have hends := hx.ends h
    simp only [Bind.bind, EStateM.bind]
    generalize x m = out, x' m' = out' at hends
    cases hends with
    | inStep hends =>
      cases hends with
      | ok a h₁ => exact (hf a).ends h₁
      | error stop h₁ => exact .inStep (.error stop h₁)
    | past hpast =>
      cases out with
      | ok a m₁ => exact .past ((hf a).goesOn hpast)
      | error stop m₁ => exact .past hpast
  goesOn m n h := by
    have hpast := hx.goesOn h
    simp only [Bind.bind, EStateM.bind]
    generalize x m = out at hpast
    cases out with
    | ok a m₁ => exact (hf a).goesOn hpast
    | error stop m₁ => exact hpast

variable {act act' : Run α}

theorem machineAt_attempt (act : Run α) (m : Machine) :
    machineAt (Run.attempt act m) = machineAt (act m) := by
  unfold Run.attempt
  cases act m with
  | ok a m₁ => rfl
  | error stop m₁ => cases stop <;> rfl

theorem attempt (hact : InStepWith R P act act') :
    InStepWith R P (Run.attempt act) (Run.attempt act') where
  ends m m' h := by
    have hends := hact.ends h
    have hmachine := machineAt_attempt act m
    unfold Run.attempt at hmachine ⊢
    generalize act m = out, act' m' = out' at hends hmachine
    cases hends with
    | inStep hends =>
      cases hends with
      | ok a h₁ => exact .inStep (.ok _ h₁)
      | error stop h₁ =>
        cases stop with
        | failure f => exact .inStep (.ok _ h₁)
        | outOfFuel => exact .inStep (.error _ h₁)
    | past hpast => exact .past (hmachine.symm ▸ hpast)
  goesOn m n h := (machineAt_attempt act m).symm ▸ hact.goesOn h

theorem machineAt_atLine (line : Nat) (act : Run α) (m : Machine) :
    machineAt (Run.atLine line act m) = machineAt (act m) := by
  unfold Run.atLine
  cases act m with
  | ok a m₁ => rfl
  | error stop m₁ => cases stop <;> rfl

theorem atLine (line : Nat) (hact : InStepWith R P act act') :
    InStepWith R P (Run.atLine line act) (Run.atLine line act') where
  ends m m' h := by
    have hends := hact.ends h
    have hmachine := machineAt_atLine line act m
    unfold Run.atLine at hmachine ⊢
    generalize act m = out, act' m' = out' at hends hmachine
    cases hends with
    | inStep hends =>
      cases hends with
      | ok a h₁ => exact .inStep (.ok a h₁)
      | error stop h₁ => cases stop <;> exact .inStep (.error _ h₁)
    | past hpast => exact .past (hmachine.symm ▸ hpast)
  goesOn m n h := (machineAt_atLine line act m).symm ▸ hact.goesOn h

/-! ## Steps of the machine -/

section Steps

variable (law : Likeness R P)

include law

theorem read (f : Heap → α) : Steps R P (Run.read f) := by
  refine of_same (fun m m' h => ?_) fun _ => rfl
  unfold Run.read
  rw [law.heap h]
  exact .ok _ h

theorem update (f : Heap → α × Heap) : Steps R P (Run.update f) where
  ends m m' h := by
    unfold Run.update
    rw [law.heap h]
    exact .inStep (.ok _ (law.withHeap h _))
  goesOn _ _ h := law.past.withHeap h _

theorem write (f : Heap → Heap) : Steps R P (Run.write f) where
  ends m m' h := by
    unfold Run.write
    rw [law.heap h]
    exact .inStep (.ok _ (law.withHeap h _))
  goesOn _ _ h := law.past.withHeap h _

theorem store (line : Nat) (find : Heap → Except FailureKind Slot) (value : Value) :
    Steps R P (Run.store line find value) where
  ends m m' h := by
    unfold Run.store
    rw [law.heap h]
    cases find m.heap with
    | ok slot => exact .inStep (.ok _ (law.withHeap h _))
    | error kind => exact .inStep (.error _ h)
  goesOn m n h := by
    unfold Run.store
    cases find m.heap with
    | ok slot => exact law.past.withHeap h _
    | error kind => exact h

theorem allocArray (items : Array Value) : Steps R P (Run.allocArray items) := update law _

theorem allocObject (entries : Dict Value) : Steps R P (Run.allocObject entries) := update law _

theorem allocFunction (f : Function) : Steps R P (Run.allocFunction f) := update law _

theorem report (level : Level) (line : String) : Steps R P (Run.report level line) where
  ends _ _ h := .inStep (.ok () (law.report h level line))
  goesOn _ _ h := law.past.report h level line

theorem callsExhausted : Steps R P callsExhausted := by
  refine of_same (fun m m' h => ?_) fun _ => rfl
  unfold Quill.callsExhausted
  rw [law.callDepth h, law.maxCallDepth h]
  exact .ok _ h

end Steps

end Run.InStepWith

open Run.InStepWith

/-! ## Methods -/

theorem callback_inStep (method : ArrayMethod) (args : List Value) :
    (callback method args).Steps R P := by
  unfold callback
  split
  · exact pure _
  · exact fail _ _

section Methods

variable (law : Likeness R P)

include law

theorem StringMethod.call_inStep (method : StringMethod) (s : String) (args : List Value) :
    (method.call s args).Steps R P := by
  unfold StringMethod.call
  split
  · exact allocArray law _
  · exact pure _

theorem changeArray_inStep (a : ArrayRef) (answer : Array Value → α)
    (change : Array Value → Array Value) : (changeArray a answer change).Steps R P :=
  bind (read law _) fun _ => bind (write law _) fun _ => pure _

variable {r r' : Eval} (hr : r.CallsInStepWith R P r')

include hr

/-- The walk over an array, by the positions left. -/
theorem visitFrom_inStep {σ τ : Type} (a : ArrayRef) (f : Value)
    {visit : σ → Value → Nat → Value → Run (Visit σ τ)}
    (hvisit : ∀ state item i answer, (visit state item i answer).Steps R P) (fuel i : Nat)
    (state : σ) :
    (visitFrom r a f visit fuel i state).InStepWith R P (visitFrom r' a f visit fuel i state) := by
  induction fuel generalizing i state with
  | zero => exact outOfFuel
  | succ fuel ih =>
    refine bind (read law _) fun item => ?_
    cases item with
    | none => exact pure _
    | some item =>
      refine bind (hr.call _ _) fun answer => bind (hvisit _ _ _ _) fun visited => ?_
      cases visited with
      | next state => exact ih _ _
      | finish result => exact pure _

theorem visitAll_inStep (a : ArrayRef) (f : Value) :
    (visitAll r a f).InStepWith R P (visitAll r' a f) := by
  unfold visitAll
  rw [hr.fuel]
  exact bind (visitFrom_inStep law hr a f (fun _ _ _ _ => pure _) _ _ _) fun _ => pure _

theorem collect_inStep (a : ArrayRef) (f : Value) (visit : Value → Value → Heap → Array Value) :
    (collect r a f visit).InStepWith R P (collect r' a f visit) := by
  unfold collect
  rw [hr.fuel]
  refine bind (visitFrom_inStep law hr a f (fun _ _ _ _ => ?_) _ _ _) fun visited => ?_
  · exact bind (read law _) fun _ => pure _
  · cases visited with
    | next out => exact allocArray law _
    | finish result => exact result.elim

theorem search_inStep (a : ArrayRef) (f : Value) (wanted : Bool) :
    (search r a f wanted).InStepWith R P (search r' a f wanted) := by
  unfold search
  rw [hr.fuel]
  refine bind (visitFrom_inStep law hr a f (fun _ _ _ _ => pure _) _ _ _) fun visited => ?_
  cases visited with
  | next _ => exact pure _
  | finish hit => exact pure _

theorem foldFrom_inStep (a : ArrayRef) (f : Value) (fuel i : Nat) (acc : Value) :
    (foldFrom r a f fuel i acc).InStepWith R P (foldFrom r' a f fuel i acc) := by
  induction fuel generalizing i acc with
  | zero => exact outOfFuel
  | succ fuel ih =>
    refine bind (read law _) fun item => ?_
    cases item with
    | none => exact pure _
    | some item => exact bind (hr.call _ _) fun acc => ih _ _

theorem foldElements_inStep (a : ArrayRef) (f initial : Value) :
    (foldElements r a f initial).InStepWith R P (foldElements r' a f initial) := by
  unfold foldElements
  rw [hr.fuel]
  split
  · refine bind (read law _) fun first => ?_
    cases first with
    | none => exact fail _ _
    | some first => exact foldFrom_inStep law hr a f _ _ _
  · exact foldFrom_inStep law hr a f _ _ _

theorem ArrayMethod.call_inStep (method : ArrayMethod) (a : ArrayRef) (args : List Value) :
    (method.call r a args).InStepWith R P (method.call r' a args) := by
  have hcallback : (callback method args).Steps R P := callback_inStep method args
  unfold ArrayMethod.call
  cases method with
  | push | pop | shift | unshift | reverse => exact changeArray_inStep law a _ _
  | indexOf | includes | join => exact bind (read law _) fun _ => pure _
  | slice | concat | flat => exact bind (read law _) fun _ => allocArray law _
  | flatMap | map | filter => exact bind hcallback fun f => collect_inStep law hr a f _
  | forEach => exact bind hcallback fun f => visitAll_inStep law hr a f
  | find | findIndex | someOf | every =>
    exact bind hcallback fun f => bind (search_inStep law hr a f _) fun _ => pure _
  | reduce => exact bind hcallback fun f => foldElements_inStep law hr a f _

theorem Method.call_inStep (method : Method) (receiver : Value) (args : List Value) :
    (method.call r receiver args).InStepWith R P (method.call r' receiver args) := by
  unfold Method.call
  split
  · exact StringMethod.call_inStep law _ _ _
  · exact ArrayMethod.call_inStep law hr _ _ _
  · exact pure _

end Methods

/-! ## Calls -/

/-- Messages keep in step. -/
def RecordsInStep (R P : Machine → Machine → Prop) : Prop :=
  ∀ channel message, (Run.record channel message).Steps R P

theorem Builtin.call_inStep (hrecord : RecordsInStep R P) (which : Builtin) (args : List Value) :
    (which.call args).Steps R P := by
  cases which with
  | log | warn | error => exact bind (hrecord _ _) fun _ => pure _
  | typeof | parseInt | parseFloat | fromCharCode => exact pure _

/-- What a function does when it is called. -/
def Function.call (host : Host) (r : Eval) (args : List Value) : Function → Run Value
  | .user d closure => callUser r d closure args
  | .builtin which => which.call args
  | .bound method receiver => method.call r receiver args
  | .host _ service => host service r args

theorem callValue_function (host : Host) (r : Eval) (ref : FunctionRef) (args : List Value) :
    callValue host r (.function ref) args = (Run.read (·.function? ref) >>= fun
      | some f => f.call host r args
      | none => Run.fail 0 (.notCallable (Value.function ref).toText)) := by
  refine bind_congr fun f => ?_
  cases f with
  | none => rfl
  | some f => cases f <;> rfl

section Calls

variable (law : Likeness R P) {r r' : Eval} (hbody : ∀ scope body,
  (Run.inCall scope (runBody r body)).InStepWith R P (Run.inCall scope (runBody r' body)))

include law hbody

/-- Up to the body a call does the same on both sides, and the body is taken to keep in step. -/
theorem callUser_inStep (d : FunctionDef) (closure : Scope) (args : List Value) :
    (callUser r d closure args).InStepWith R P (callUser r' d closure args) := by
  refine bind (report law _ _) fun _ => ?_
  refine bind (Run.InStepWith.callsExhausted law) fun exhausted => ?_
  split
  · exact fail _ _
  · exact bind (update law _) fun scope => hbody scope d.body

variable {host : Host} (hr : r.CallsInStepWith R P r')
  (hhost : ∀ service args, (host service r args).InStepWith R P (host service r' args))

include hr hhost

/-- Every kind of function. -/
theorem Function.call_inStep {args : List Value} {f : Function}
    (hbuiltin : ∀ which, f = .builtin which → (which.call args).Steps R P) :
    (f.call host r args).InStepWith R P (f.call host r' args) := by
  cases f with
  | user d closure => exact callUser_inStep law hbody _ _ _
  | builtin which => exact hbuiltin which rfl
  | bound method receiver => exact Method.call_inStep law hr _ _ _
  | host name service => exact hhost _ _

theorem callValue_inStep (hrecord : RecordsInStep R P) (callee : Value) (args : List Value) :
    (callValue host r callee args).InStepWith R P (callValue host r' callee args) := by
  cases callee with
  | function ref =>
    rw [callValue_function, callValue_function]
    refine bind (read law _) fun f => ?_
    cases f with
    | none => exact fail _ _
    | some f =>
      exact Function.call_inStep law hbody hr hhost fun which _ =>
        Builtin.call_inStep hrecord which args
  | _ => exact fail _ _

end Calls

end Quill
