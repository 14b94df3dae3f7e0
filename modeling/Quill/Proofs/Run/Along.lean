import Quill.Eval

/-!
# What every run respects

A run can do only so much to the machine. It changes the heap, it adds to the report and to the
messages, and it changes the three registers inside of brackets that change them back. A relation
between the state before and the state after that allows each of these is therefore respected by
whole runs, whatever they evaluate and however they end.

`RunRelation` lists what such a relation has to allow. `evaluator_along` is the walk through all
expressions, statements, methods and calls, done once for every such relation: evaluating a node
respects it if evaluating its parts does, and fuel ties the knot. What the heap holds is left out of
account, so the relations meant here speak of the other fields of the machine.
-/

set_option autoImplicit false

namespace Quill

variable {α β : Type}

/-- The state in which a computation ends: with a value, with a failure or without fuel. -/
def Run.after (act : Run α) (m : Machine) : Machine :=
  match act m with
  | .ok _ m' => m'
  | .error _ m' => m'

/-- A relation between the states before and after that allows what the machine can do. -/
structure RunRelation (R : Machine → Machine → Prop) : Prop where
  refl : ∀ m, R m m
  trans : ∀ {m₁ m₂ m₃}, R m₁ m₂ → R m₂ m₃ → R m₁ m₃
  heap : ∀ m heap, R m { m with heap }
  report : ∀ m level line, R m (m.report level line)
  record : ∀ m channel message, R m (m.record channel message)
  /-- Work in another scope, which is then left. -/
  inScope : ∀ {m m'} scope, R { m with scope } m' → R m { m' with scope := m.scope }
  /-- Work in one more loop. -/
  inLoop : ∀ {m m'}, R { m with loopDepth := m.loopDepth + 1 } m' →
    R m { m' with loopDepth := m'.loopDepth - 1 }
  /-- Work in one more call. -/
  inCall : ∀ {m m'} scope,
    R { m with scope, loopDepth := 0, callDepth := m.callDepth + 1 } m' →
    R m { m' with scope := m.scope, loopDepth := m.loopDepth, callDepth := m'.callDepth - 1 }
  /-- Registers put back by hand. -/
  setRegisters : ∀ {m m'}, R m m' → R m (m'.setRegisters m.registers)

/-- However the computation ends, the state after it is related to the state before. -/
def Run.Along (R : Machine → Machine → Prop) (act : Run α) : Prop := ∀ m, R m (act.after m)

/-- Evaluation of parts respects a relation. -/
structure Eval.Along (R : Machine → Machine → Prop) (r : Eval) : Prop where
  expr : ∀ e, (r.expr e).Along R
  stmt : ∀ s, (r.stmt s).Along R
  call : ∀ callee args, (r.call callee args).Along R

/-- The functions of a host respect a relation, as long as the evaluator they are given does. -/
def Host.Along (R : Machine → Machine → Prop) (host : Host) : Prop :=
  ∀ service r args, r.Along R → (host service r args).Along R

/-- What comes second starts where the first ended, unless that stopped. -/
theorem Run.after_bind (x : Run α) (f : α → Run β) (m : Machine) :
    (x >>= f).after m =
      match x m with
      | .ok a m' => (f a).after m'
      | .error _ m' => m' := by
  simp only [after, Bind.bind, EStateM.bind]
  cases x m <;> rfl

/-- What follows a bracket is what follows its inside, with the registers changed back. -/
theorem Run.after_bracket {σ : Type} (keep : Machine → σ) (enter : Machine → Machine)
    (leave : σ → Machine → Machine) (act : Run α) (m : Machine) :
    (Run.bracket keep enter leave act).after m = leave (keep m) (act.after (enter m)) := by
  unfold after Run.bracket
  cases act (enter m) <;> rfl

namespace Run.Along

variable {R : Machine → Machine → Prop} (law : RunRelation R)

/-! ## Single steps -/

section Steps

include law

theorem pure (a : α) : Along R (Pure.pure a : Run α) := fun m => law.refl m

theorem throw (e : Stop) : Along R (MonadExcept.throw e : Run α) := fun m => law.refl m

theorem bind {x : Run α} {f : α → Run β} (hx : Along R x) (hf : ∀ a, Along R (f a)) :
    Along R (x >>= f) := by
  intro m
  have hm := hx m
  rw [after_bind]
  cases h : x m with
  | ok a m' =>
    rw [after, h] at hm
    exact law.trans hm (hf a m')
  | error e m' =>
    rw [after, h] at hm
    exact hm

theorem outOfFuel : Along R (Run.outOfFuel : Run α) := throw law _

theorem fail (line : Nat) (kind : FailureKind) : Along R (Run.fail line kind : Run α) :=
  throw law _

theorem getMachine : Along R (get : Run Machine) := fun m => law.refl m

theorem read (f : Heap → α) : Along R (Run.read f) := fun m => law.refl m

theorem write (f : Heap → Heap) : Along R (Run.write f) := fun m => law.heap m _

theorem update (f : Heap → α × Heap) : Along R (Run.update f) := fun m => law.heap m _

theorem store (line : Nat) (find : Heap → Except FailureKind Slot) (value : Value) :
    Along R (Run.store line find value) := by
  intro m
  cases h : find m.heap with
  | ok slot => simpa [after, Run.store, h] using law.heap m _
  | error kind => simpa [after, Run.store, h] using law.refl m

theorem report (level : Level) (line : String) : Along R (Run.report level line) :=
  fun m => law.report m level line

theorem record (channel : Channel) (message : String) : Along R (Run.record channel message) :=
  fun m => law.record m channel message

theorem allocArray (items : Array Value) : Along R (Run.allocArray items) := update law _

theorem allocObject (entries : Dict Value) : Along R (Run.allocObject entries) := update law _

theorem allocFunction (f : Function) : Along R (Run.allocFunction f) := update law _

theorem resume (outcome : Except Failure α) : Along R (Run.resume outcome) := by
  cases outcome with
  | ok a => exact pure law a
  | error f => exact throw law _

end Steps

/-! ## Brackets -/

section Brackets

include law

theorem inScope {act : Run α} (scope : Scope) (h : Along R act) :
    Along R (Run.inScope scope act) := by
  intro m
  rw [Run.inScope, after_bracket]
  exact law.inScope scope (h _)

theorem inLoop {act : Run α} (h : Along R act) : Along R (Run.inLoop act) := by
  intro m
  rw [Run.inLoop, after_bracket]
  exact law.inLoop (h _)

theorem inCall {act : Run α} (scope : Scope) (h : Along R act) :
    Along R (Run.inCall scope act) := by
  intro m
  rw [Run.inCall, after_bracket]
  exact law.inCall scope (h _)

theorem inChild {act : Run α} (h : Along R act) : Along R (Run.inChild act) :=
  bind law (getMachine law) fun _ => bind law (update law _) fun child => inScope law child h

end Brackets

/-! ## Failures -/

theorem atLine {act : Run α} (line : Nat) (h : Along R act) : Along R (Run.atLine line act) := by
  intro m
  have hm := h m
  unfold after at hm
  unfold after Run.atLine
  cases hact : act m with
  | ok a m' => simpa [hact] using hm
  | error e m' => cases e <;> simpa [hact] using hm

theorem attempt {act : Run α} (h : Along R act) : Along R (Run.attempt act) := by
  intro m
  have hm := h m
  unfold after at hm
  unfold after Run.attempt
  cases hact : act m with
  | ok a m' => simpa [hact] using hm
  | error e m' => cases e <;> simpa [hact] using hm

end Run.Along

open Run Run.Along

variable {R : Machine → Machine → Prop} (law : RunRelation R)

/-! ## Methods -/

section Methods

include law

theorem StringMethod.along_call (method : StringMethod) (s : String) (args : List Value) :
    (method.call s args).Along R := by
  unfold StringMethod.call
  split
  · exact allocArray law _
  · exact pure law _

theorem along_callback (method : ArrayMethod) (args : List Value) :
    (callback method args).Along R := by
  unfold callback
  split
  · exact pure law _
  · exact fail law _ _

theorem along_changeArray (a : ArrayRef) (answer : Array Value → α)
    (change : Array Value → Array Value) : (changeArray a answer change).Along R :=
  bind law (read law _) fun _ => bind law (write law _) fun _ => pure law _

variable {r : Eval} (hr : r.Along R)

include hr

/-- The walk over an array, by the positions left. Each call may change the array; the walk does not
mind, since it reads afresh. -/
theorem along_visitFrom {σ τ : Type} (a : ArrayRef) (f : Value)
    {visit : σ → Value → Nat → Value → Run (Visit σ τ)}
    (hvisit : ∀ state item i answer, (visit state item i answer).Along R) :
    ∀ (fuel i : Nat) (state : σ), (visitFrom r a f visit fuel i state).Along R := by
  intro fuel
  induction fuel with
  | zero => intro i state; exact outOfFuel law
  | succ fuel ih =>
    intro i state
    refine bind law (read law _) fun item => ?_
    cases item with
    | none => exact pure law _
    | some item =>
      refine bind law (hr.call _ _) fun answer => bind law (hvisit _ _ _ _) fun visited => ?_
      cases visited with
      | next state => exact ih _ _
      | finish result => exact pure law _

theorem along_visitAll (a : ArrayRef) (f : Value) : (visitAll r a f).Along R :=
  bind law (along_visitFrom law hr a f (fun _ _ _ _ => pure law _) _ _ _) fun _ => pure law _

theorem along_collect (a : ArrayRef) (f : Value) (visit : Value → Value → Heap → Array Value) :
    (collect r a f visit).Along R := by
  refine bind law (along_visitFrom law hr a f (fun _ _ _ _ => ?_) _ _ _) fun visited => ?_
  · exact bind law (read law _) fun _ => pure law _
  · cases visited with
    | next out => exact allocArray law _
    | finish result => exact result.elim

theorem along_search (a : ArrayRef) (f : Value) (wanted : Bool) :
    (search r a f wanted).Along R := by
  refine bind law (along_visitFrom law hr a f (fun _ _ _ _ => pure law _) _ _ _) fun visited => ?_
  cases visited with
  | next _ => exact pure law _
  | finish hit => exact pure law _

theorem along_foldFrom (a : ArrayRef) (f : Value) :
    ∀ (fuel i : Nat) (acc : Value), (foldFrom r a f fuel i acc).Along R := by
  intro fuel
  induction fuel with
  | zero => intro i acc; exact outOfFuel law
  | succ fuel ih =>
    intro i acc
    refine bind law (read law _) fun item => ?_
    cases item with
    | none => exact pure law _
    | some item => exact bind law (hr.call _ _) fun acc => ih _ _

theorem along_foldElements (a : ArrayRef) (f initial : Value) :
    (foldElements r a f initial).Along R := by
  unfold foldElements
  split
  · refine bind law (read law _) fun first => ?_
    cases first with
    | none => exact fail law _ _
    | some first => exact along_foldFrom law hr a f _ _ _
  · exact along_foldFrom law hr a f _ _ _

theorem ArrayMethod.along_call (method : ArrayMethod) (a : ArrayRef) (args : List Value) :
    (method.call r a args).Along R := by
  have hcallback := along_callback law method args
  unfold ArrayMethod.call
  cases method with
  | push | pop | shift | unshift | reverse => exact along_changeArray law a _ _
  | indexOf | includes | join => exact bind law (read law _) fun _ => pure law _
  | slice | concat | flat => exact bind law (read law _) fun _ => allocArray law _
  | flatMap | map | filter => exact bind law hcallback fun f => along_collect law hr a f _
  | forEach => exact bind law hcallback fun f => along_visitAll law hr a f
  | find | findIndex | someOf | every =>
    exact bind law hcallback fun f => bind law (along_search law hr a f _) fun _ => pure law _
  | reduce => exact bind law hcallback fun f => along_foldElements law hr a f _

theorem Method.along_call (method : Method) (receiver : Value) (args : List Value) :
    (method.call r receiver args).Along R := by
  unfold Method.call
  split
  · exact StringMethod.along_call law _ _ _
  · exact ArrayMethod.along_call law hr _ _ _
  · exact pure law _

end Methods

/-! ## Expressions -/

section Expressions

include law

theorem along_readVariable (line : Nat) (name : String) : (Run.readVariable line name).Along R := by
  intro m
  cases h : m.heap.lookup? m.scope name with
  | some value => simpa [Run.after, Run.readVariable, h] using law.refl m
  | none => simpa [Run.after, Run.readVariable, h] using law.refl m

theorem along_scope : Run.scope.Along R := fun m => law.refl m

theorem along_assignVariable (line : Nat) (name : String) (value : Value) :
    (Run.assignVariable line name value).Along R :=
  bind law (along_scope law) fun _ => store law _ _ _

theorem along_closure (d : FunctionDef) : (Run.closure d).Along R :=
  bind law (along_scope law) fun _ => allocFunction law _

theorem along_member (receiver : Value) (name : String) : (Run.member receiver name).Along R := by
  unfold Run.member
  split
  · exact bind law (read law _) fun _ => pure law _
  · refine bind law (read law _) fun field => ?_
    cases field with
    | some value => exact pure law _
    | none =>
      dsimp only
      split
      · exact allocFunction law _
      · exact pure law _

theorem along_loadPlace (line : Nat) (place : Place) : (loadPlace line place).Along R := by
  unfold loadPlace
  split
  · exact along_readVariable law _ _
  · exact along_member law _ _
  · refine bind law (read law _) fun items => ?_
    split
    · exact pure law _
    · exact fail law _ _
  · exact read law _

theorem along_storePlace (line : Nat) (value : Value) (place : Place) :
    (storePlace line value place).Along R := by
  unfold storePlace
  cases place with
  | var name => exact along_assignVariable law _ _ _
  | member object name => exact write law _
  | index container key => exact store law _ _ _

variable {r : Eval} (hr : r.Along R)

include hr

theorem along_evalAll : ∀ (es : List Expr) (done : Array Value), (evalAll r done es).Along R := by
  intro es
  induction es with
  | nil => intro done; exact pure law _
  | cons e rest ih => intro done; exact bind law (hr.expr e) fun _ => ih _

theorem along_evalEntries :
    ∀ (entries : List (String × Expr)) (done : Dict Value),
      (evalEntries r done entries).Along R := by
  intro entries
  induction entries with
  | nil => intro done; exact pure law _
  | cons entry rest ih => intro done; exact bind law (hr.expr entry.2) fun _ => ih _

theorem along_evalCall (callee : Expr) (args : List Expr) (line : Nat) :
    (evalCall r callee args line).Along R := by
  unfold evalCall
  split
  · refine bind law (hr.expr _) fun receiver => ?_
    split
    · exact pure law _
    · refine bind law (along_evalAll law hr _ _) fun values => ?_
      dsimp only
      split
      · exact atLine _ (Method.along_call law hr _ _ _)
      · exact bind law (along_member law _ _) fun f => atLine _ (hr.call _ _)
  · exact bind law (hr.expr _) fun f => bind law (along_evalAll law hr _ _) fun values =>
      atLine _ (hr.call _ _)

theorem along_resolvePlace (invalid : FailureKind) (line : Nat) (target : Expr) :
    (resolvePlace r invalid line target).Along R := by
  unfold resolvePlace
  split
  · exact pure law _
  · exact bind law (hr.expr _) fun _ => pure law _
  · refine bind law (hr.expr _) fun container => bind law (hr.expr _) fun key => ?_
    split
    · exact pure law _
    · exact pure law _
    · exact fail law _ _
  · exact fail law _ _

theorem along_assignTo (line : Nat) (value : Value) (target : Expr) :
    (assignTo r line value target).Along R := by
  unfold assignTo
  split
  · exact along_assignVariable law _ _ _
  · exact bind law (hr.expr _) fun _ => write law _
  · exact bind law (hr.expr _) fun _ => bind law (hr.expr _) fun _ => store law _ _ _
  · exact fail law _ _

theorem along_evalUpdate (op : UpdateOp) (before : Bool) (target : Expr) (line : Nat) :
    (evalUpdate r op before target line).Along R :=
  bind law (along_resolvePlace law hr _ _ _) fun _ => bind law (along_loadPlace law _ _) fun _ =>
    bind law (along_storePlace law _ _ _) fun _ => pure law _

theorem along_evalCompound (op : BinaryOp) (target value : Expr) (line : Nat) :
    (evalCompound r op target value line).Along R :=
  bind law (along_resolvePlace law hr _ _ _) fun _ => bind law (along_loadPlace law _ _) fun _ =>
    bind law (hr.expr _) fun _ => bind law (read law _) fun _ =>
      bind law (along_storePlace law _ _ _) fun _ => pure law _

/-- Every form of expression, given its parts. -/
theorem along_evalExpr (e : Expr) : (evalExpr r e).Along R := by
  cases e with
  | number | string | bool | null => exact pure law _
  | ident name position => exact along_readVariable law _ _
  | array items position => exact bind law (along_evalAll law hr _ _) fun _ => allocArray law _
  | object entries position =>
    exact bind law (along_evalEntries law hr _ _) fun _ => allocObject law _
  | binary op left right position =>
    exact bind law (hr.expr _) fun _ => bind law (hr.expr _) fun _ => read law _
  | logical op left right position =>
    cases op with
    | and =>
      refine bind law (hr.expr _) fun a => ?_
      split
      · exact bind law (hr.expr _) fun _ => pure law _
      · exact pure law _
    | or =>
      refine bind law (hr.expr _) fun a => ?_
      split
      · exact pure law _
      · exact hr.expr _
  | unary op operand position =>
    cases op with
    | neg => exact bind law (hr.expr _) fun _ => pure law _
    | not => exact bind law (hr.expr _) fun _ => pure law _
  | call callee args position => exact along_evalCall law hr _ _ _
  | member object name optional position =>
    refine bind law (hr.expr _) fun receiver => ?_
    split
    · exact pure law _
    · exact along_member law _ _
  | index object index position =>
    exact bind law (hr.expr _) fun _ => bind law (hr.expr _) fun _ => read law _
  | ternary condition whenTrue whenFalse position =>
    refine bind law (hr.expr _) fun c => ?_
    split
    · exact hr.expr _
    · exact hr.expr _
  | update op before target position => exact along_evalUpdate law hr _ _ _ _
  | assign target value position =>
    exact bind law (hr.expr _) fun _ => bind law (along_assignTo law hr _ _ _) fun _ => pure law _
  | compound op target value position => exact along_evalCompound law hr _ _ _ _
  | function d => exact along_closure law d

end Expressions

/-! ## Statements -/

section Statements

include law

theorem along_declare (name : String) (value : Value) (mutable : Bool) :
    (Run.declare name value mutable).Along R :=
  bind law (along_scope law) fun _ => write law _

theorem along_inChildWith {act : Run α} (name : String) (value : Value) (mutable : Bool)
    (h : act.Along R) : (Run.inChildWith name value mutable act).Along R :=
  bind law (along_scope law) fun _ => bind law (update law _) fun child =>
    bind law (write law _) fun _ => inScope law child h

theorem along_loopControl (line : Nat) (outside : FailureKind) (completion : Completion) :
    (Run.loopControl line outside completion).Along R := by
  intro m
  unfold Run.after Run.loopControl
  by_cases h : m.loopDepth = 0
  · simpa [h] using law.refl m
  · simpa [h] using law.refl m

/-- A loop respects what one pass of it does, by the passes left. -/
theorem along_iterate {pass : Run (Option Completion)} (h : pass.Along R) :
    ∀ fuel, (iterate pass fuel).Along R := by
  intro fuel
  induction fuel with
  | zero => exact outOfFuel law
  | succ fuel ih =>
    refine bind law h fun ended => ?_
    cases ended with
    | some done => exact pure law _
    | none => exact ih

variable {r : Eval} (hr : r.Along R)

include hr

theorem along_runStmts : ∀ (stmts : List Stmt) (last : Value), (runStmts r last stmts).Along R := by
  intro stmts
  induction stmts with
  | nil => intro last; exact pure law _
  | cons stmt rest ih =>
    intro last
    refine bind law (hr.stmt stmt) fun completion => ?_
    cases completion with
    | normal value => exact ih _
    | returned | broke | continued => exact pure law _

theorem along_evalOption (e : Option Expr) : (evalOption r e).Along R := by
  cases e with
  | some e => exact hr.expr e
  | none => exact pure law _

theorem along_runBlock (stmts : List Stmt) : (runBlock r stmts).Along R :=
  inChild law (along_runStmts law hr _ _)

theorem along_whilePass (condition : Expr) (body : Stmt) :
    (whilePass r condition body).Along R := by
  refine bind law (hr.expr _) fun c => ?_
  split
  · exact bind law (hr.stmt _) fun _ => pure law _
  · exact pure law _

theorem along_doWhilePass (body : Stmt) (condition : Expr) :
    (doWhilePass r body condition).Along R := by
  refine bind law (hr.stmt _) fun completion => ?_
  split
  · exact pure law _
  · refine bind law (hr.expr _) fun c => ?_
    split
    · exact pure law _
    · exact pure law _

theorem along_loopTest (condition : Option Expr) : (loopTest r condition).Along R := by
  cases condition with
  | some e => exact bind law (hr.expr e) fun _ => pure law _
  | none => exact pure law _

theorem along_forPass (condition update : Option Expr) (body : Stmt) :
    (forPass r condition update body).Along R := by
  refine bind law (along_loopTest law hr _) fun go => ?_
  split
  · refine bind law (hr.stmt _) fun completion => ?_
    split
    · exact pure law _
    · exact bind law (along_evalOption law hr _) fun _ => pure law _
  · exact pure law _

theorem along_loopStart (init : Option Stmt) : (loopStart r init).Along R := by
  cases init with
  | some stmt => exact bind law (hr.stmt stmt) fun _ => pure law _
  | none => exact pure law _

theorem along_eachPass (name : String) (mutable : Bool) (body : Stmt) :
    ∀ values, (eachPass r name mutable body values).Along R := by
  intro values
  induction values with
  | nil => exact pure law _
  | cons value rest ih =>
    refine bind law (along_inChildWith law _ _ _ (hr.stmt _)) fun completion => ?_
    split
    · exact pure law _
    · exact ih

theorem along_runGuarded (body : List Stmt) (handler : Option Handler) :
    (runGuarded r body handler).Along R := by
  refine bind law (attempt (along_runBlock law hr _)) fun outcome => ?_
  split
  · exact along_inChildWith law _ _ _ (along_runStmts law hr _ _)
  · exact resume law _

theorem along_runTry (body : List Stmt) (handler : Option Handler) (cleanup : Option (List Stmt)) :
    (runTry r body handler cleanup).Along R := by
  cases cleanup with
  | none => exact along_runGuarded law hr _ _
  | some cleanup =>
    refine bind law (attempt (along_runGuarded law hr _ _)) fun outcome => ?_
    refine bind law (along_runBlock law hr _) fun completion => ?_
    cases completion with
    | normal value => exact resume law _
    | returned | broke | continued => exact pure law _

/-- Every form of statement, given its parts. -/
theorem along_execStmt (s : Stmt) : (execStmt r s).Along R := by
  cases s with
  | expr e => exact bind law (hr.expr _) fun _ => pure law _
  | declare name constant init position =>
    exact bind law (along_evalOption law hr _) fun _ =>
      bind law (along_declare law _ _ _) fun _ => pure law _
  | ifElse condition whenTrue whenFalse position =>
    refine bind law (hr.expr _) fun c => ?_
    split
    · exact hr.stmt _
    · cases whenFalse with
      | some stmt => exact hr.stmt _
      | none => exact pure law _
  | ret value position => exact bind law (along_evalOption law hr _) fun _ => pure law _
  | block stmts position => exact along_runBlock law hr _
  | whileLoop condition body position =>
    exact inLoop law (along_iterate law (along_whilePass law hr _ _) _)
  | doWhile body condition position =>
    exact inLoop law (along_iterate law (along_doWhilePass law hr _ _) _)
  | forLoop init condition update body position =>
    exact inChild law <| bind law (along_loopStart law hr _) fun _ =>
      inLoop law (along_iterate law (along_forPass law hr _ _ _) _)
  | forEach name constant traversal subject body position =>
    exact bind law (hr.expr _) fun _ => bind law (read law _) fun _ =>
      inLoop law (along_eachPass law hr _ _ _ _)
  | breakLoop position => exact along_loopControl law _ _ _
  | continueLoop position => exact along_loopControl law _ _ _
  | tryCatch body handler cleanup position => exact along_runTry law hr _ _ _
  | throw value position => exact bind law (hr.expr _) fun _ => fail law _ _
  | function d =>
    refine bind law (along_closure law d) fun f => ?_
    dsimp only
    split
    · exact bind law (along_declare law _ _ _) fun _ => pure law _
    · exact pure law _

end Statements

/-! ## Calls -/

section Calls

include law

theorem Builtin.along_call (which : Builtin) (args : List Value) : (which.call args).Along R := by
  cases which with
  | log | warn | error => exact bind law (record law _ _) fun _ => pure law _
  | typeof | parseInt | parseFloat | fromCharCode => exact pure law _

variable {r : Eval} (hr : r.Along R)

include hr

theorem along_runBody (body : FunctionBody) : (runBody r body).Along R := by
  cases body with
  | block stmts => exact bind law (along_runStmts law hr _ _) fun _ => pure law _
  | expr value => exact hr.expr _

theorem along_callUser (d : FunctionDef) (closure : Scope) (args : List Value) :
    (callUser r d closure args).Along R := by
  refine bind law (report law _ _) fun _ => bind law (fun m => law.refl m) fun exhausted => ?_
  split
  · exact fail law _ _
  · exact bind law (update law _) fun scope => inCall law scope (along_runBody law hr _)

theorem along_callValue {host : Host} (hhost : host.Along R) (callee : Value) (args : List Value) :
    (callValue host r callee args).Along R := by
  unfold callValue
  split
  · refine bind law (read law _) fun f => ?_
    split
    · exact along_callUser law hr _ _ _
    · exact Builtin.along_call law _ _
    · exact Method.along_call law hr _ _ _
    · exact hhost _ _ _ hr
    · exact fail law _ _
  · exact fail law _ _

end Calls

/-! ## The knot -/

section Knot

include law

/-- The evaluator respects every relation that the machine's steps do, with any amount of fuel. -/
theorem evaluator_along {host : Host} (hhost : host.Along R) :
    ∀ fuel, (evaluator host fuel).Along R := by
  intro fuel
  induction fuel with
  | zero => exact ⟨fun _ => outOfFuel law, fun _ => outOfFuel law, fun _ _ => outOfFuel law⟩
  | succ fuel ih =>
    exact ⟨along_evalExpr law ih, along_execStmt law ih, along_callValue law ih hhost⟩

/-- So does a program. It may put registers back that an open failure left changed. -/
theorem along_execute {r : Eval} (hr : r.Along R) (program : List Stmt) :
    (execute r program).Along R := by
  refine bind law (report law _ _) fun _ => ?_
  intro m
  have hrun := along_runStmts law hr program .null m
  -- `get` leaves `m` as it is, so what is kept are the registers of `m`.
  rw [after_bind]
  show R m ((Run.attempt (runStmts r .null program) >>= _).after m)
  rw [after_bind, Run.attempt]
  cases h : runStmts r .null program m with
  | ok completion m' =>
    rw [Run.after, h] at hrun
    exact law.trans hrun (bind law (report law _ _) (fun _ => pure law _) m')
  | error e m' =>
    rw [Run.after, h] at hrun
    cases e with
    | outOfFuel => exact hrun
    | failure f =>
      show R m ((m'.setRegisters m.registers).report .warn ("uncaught " ++ f.display))
      exact law.trans (law.setRegisters hrun) (law.report _ _ _)

end Knot

end Quill
