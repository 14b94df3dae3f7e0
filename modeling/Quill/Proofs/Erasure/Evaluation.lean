import Quill.Proofs.Erasure.Runs

/-!
# Evaluation without positions

Evaluating a tree erases to evaluating the erased tree, given that evaluating its parts does. Fuel
ties the knot. The walk is over all methods, expressions, statements and calls. The functions of the
host are never reached, since the heap has none of them, and may do what they like.
-/

set_option autoImplicit false

namespace Quill

open Run Run.ErasesTo

variable {α : Type}

/-! ## Methods -/

section Methods

theorem StringMethod.erasesTo_call (method : StringMethod) (s : String) (args : List Value) :
    (method.call s args).ErasesTo (method.call s args) := by
  unfold StringMethod.call
  split
  · exact allocArray _
  · exact pure _

theorem erasesTo_callback (method : ArrayMethod) (args : List Value) :
    (callback method args).ErasesTo (callback method args) := by
  unfold callback
  split
  · exact pure _
  · exact fail _ _ _

theorem erasesTo_changeArray (a : ArrayRef) (answer : Array Value → α)
    (change : Array Value → Array Value) :
    (changeArray a answer change).ErasesTo (changeArray a answer change) :=
  bind (read fun _ _ => rfl) fun _ => bind (write fun _ _ => rfl) fun _ => pure _

variable {r : Eval} (hr : r.Blind)

include hr

/-- The walk over an array, by the positions left. -/
theorem erasesTo_visitFrom {σ τ : Type} (a : ArrayRef) (f : Value)
    {visit : σ → Value → Nat → Value → Run (Visit σ τ)}
    (hvisit : ∀ state item i answer,
      (visit state item i answer).ErasesTo (visit state item i answer)) :
    ∀ (fuel i : Nat) (state : σ),
      (visitFrom r a f visit fuel i state).ErasesTo (visitFrom r a f visit fuel i state) := by
  intro fuel
  induction fuel with
  | zero => intro i state; exact outOfFuel
  | succ fuel ih =>
    intro i state
    refine bind (read fun _ _ => rfl) fun item => ?_
    cases item with
    | none => exact pure _
    | some item =>
      refine bind (hr.call _ _) fun answer => bind (hvisit _ _ _ _) fun visited => ?_
      cases visited with
      | next state => exact ih _ _
      | finish result => exact pure _

theorem erasesTo_visitAll (a : ArrayRef) (f : Value) :
    (visitAll r a f).ErasesTo (visitAll r a f) :=
  bind (erasesTo_visitFrom hr a f (fun _ _ _ _ => pure _) _ _ _) fun _ => pure _

theorem erasesTo_collect (a : ArrayRef) (f : Value) {visit : Value → Value → Heap → Array Value}
    (hvisit : ∀ item answer, Heap.Ignores (visit item answer)) :
    (collect r a f visit).ErasesTo (collect r a f visit) := by
  refine bind (erasesTo_visitFrom hr a f (fun _ _ _ _ => ?_) _ _ _) fun visited => ?_
  · exact bind (read (hvisit _ _)) fun _ => pure _
  · cases visited with
    | next out => exact allocArray _
    | finish result => exact result.elim

theorem erasesTo_search (a : ArrayRef) (f : Value) (wanted : Bool) :
    (search r a f wanted).ErasesTo (search r a f wanted) := by
  refine bind (erasesTo_visitFrom hr a f (fun _ _ _ _ => pure _) _ _ _) fun visited => ?_
  cases visited with
  | next _ => exact pure _
  | finish hit => exact pure _

theorem erasesTo_foldFrom (a : ArrayRef) (f : Value) :
    ∀ (fuel i : Nat) (acc : Value),
      (foldFrom r a f fuel i acc).ErasesTo (foldFrom r a f fuel i acc) := by
  intro fuel
  induction fuel with
  | zero => intro i acc; exact outOfFuel
  | succ fuel ih =>
    intro i acc
    refine bind (read fun _ _ => rfl) fun item => ?_
    cases item with
    | none => exact pure _
    | some item => exact bind (hr.call _ _) fun acc => ih _ _

theorem erasesTo_foldElements (a : ArrayRef) (f initial : Value) :
    (foldElements r a f initial).ErasesTo (foldElements r a f initial) := by
  unfold foldElements
  split
  · refine bind (read fun _ _ => rfl) fun first => ?_
    cases first with
    | none => exact fail _ _ _
    | some first => exact erasesTo_foldFrom hr a f _ _ _
  · exact erasesTo_foldFrom hr a f _ _ _

theorem ArrayMethod.erasesTo_call (method : ArrayMethod) (a : ArrayRef) (args : List Value) :
    (method.call r a args).ErasesTo (method.call r a args) := by
  have hcallback := erasesTo_callback method args
  unfold ArrayMethod.call
  cases method with
  | push | pop | shift | unshift | reverse => exact erasesTo_changeArray a _ _
  | indexOf | includes =>
    refine bind (read fun h functions => ?_) fun _ => pure _
    simp only [Heap.array_withFunctions, Heap.equal_withFunctions]
  | join => exact bind (read fun _ _ => rfl) fun _ => pure _
  | slice | concat => exact bind (read fun _ _ => rfl) fun _ => allocArray _
  | flat =>
    refine bind (read fun h functions => ?_) fun _ => allocArray _
    simp only [Heap.array_withFunctions, Heap.flatten_withFunctions]
  | flatMap | map | filter =>
    exact bind hcallback fun f => erasesTo_collect hr a f fun _ _ _ _ => rfl
  | forEach => exact bind hcallback fun f => erasesTo_visitAll hr a f
  | find | findIndex | someOf | every =>
    exact bind hcallback fun f => bind (erasesTo_search hr a f _) fun _ => pure _
  | reduce => exact bind hcallback fun f => erasesTo_foldElements hr a f _

theorem Method.erasesTo_call (method : Method) (receiver : Value) (args : List Value) :
    (method.call r receiver args).ErasesTo (method.call r receiver args) := by
  unfold Method.call
  split
  · exact StringMethod.erasesTo_call _ _ _
  · exact ArrayMethod.erasesTo_call hr _ _ _
  · exact pure _

end Methods

/-! ## Variables and members -/

theorem erasesTo_readVariable (line line' : Nat) (name : String) :
    (Run.readVariable line name).ErasesTo (Run.readVariable line' name) := by
  intro m hm
  have hsame : m.erase.heap.lookup? m.erase.scope name = m.heap.lookup? m.scope name :=
    (Heap.ignores_lookup? m.scope name).read_erase m.heap
  unfold Run.readVariable
  rw [hsame]
  cases m.heap.lookup? m.scope name with
  | some value => exact .value value hm
  | none => exact .failure rfl hm

theorem erasesTo_assignVariable (line line' : Nat) (name : String) (value : Value) :
    (Run.assignVariable line name value).ErasesTo (Run.assignVariable line' name value) :=
  bind scope fun scope => store _ _ (Heap.ignores_variableSlot scope name) _

/-- The function that is made has the positions of its definition, and only those. -/
theorem erasesTo_closure (d : FunctionDef) :
    (Run.closure d).ErasesTo (Run.closure d.erase) :=
  bind scope fun scope => @allocFunction (.user d scope) rfl

theorem erasesTo_member (receiver : Value) (name : String) :
    (Run.member receiver name).ErasesTo (Run.member receiver name) := by
  unfold Run.member
  split
  · exact bind (read fun _ _ => rfl) fun _ => pure _
  · refine bind (read fun _ _ => rfl) fun field => ?_
    cases field with
    | some value => exact pure _
    | none =>
      dsimp only
      split
      · exact @allocFunction (.bound _ receiver) rfl
      · exact pure _

theorem erasesTo_loadPlace (line line' : Nat) (place : Place) :
    (loadPlace line place).ErasesTo (loadPlace line' place) := by
  unfold loadPlace
  split
  · exact erasesTo_readVariable _ _ _
  · exact erasesTo_member _ _
  · refine bind (read fun _ _ => rfl) fun items => ?_
    split
    · exact pure _
    · exact fail _ _ _
  · exact read fun _ _ => rfl

theorem erasesTo_storePlace (line line' : Nat) (value : Value) (place : Place) :
    (storePlace line value place).ErasesTo (storePlace line' value place) := by
  unfold storePlace
  cases place with
  | var name => exact erasesTo_assignVariable _ _ _ _
  | member object name => exact write (Heap.keeps_writeMember _ _ _)
  | index container key => exact store _ _ (fun _ _ => rfl) _

/-! ## Expressions -/

section Expressions

variable {r : Eval} (hr : r.Blind)

include hr

theorem erasesTo_evalAll : ∀ (es : List Expr) (done : Array Value),
    (evalAll r done es).ErasesTo (evalAll r done (eraseExprs es)) := by
  intro es
  induction es with
  | nil => intro done; exact pure _
  | cons e rest ih => intro done; exact bind (hr.expr e) fun _ => ih _

theorem erasesTo_evalEntries : ∀ (entries : List (String × Expr)) (done : Dict Value),
    (evalEntries r done entries).ErasesTo (evalEntries r done (eraseEntries entries)) := by
  intro entries
  induction entries with
  | nil => intro done; exact pure _
  | cons entry rest ih => intro done; exact bind (hr.expr entry.2) fun _ => ih _

theorem erasesTo_evalCall (callee : Expr) (args : List Expr) (line line' : Nat) :
    (evalCall r callee args line).ErasesTo (evalCall r callee.erase (eraseExprs args) line') := by
  -- A callee keeps its form, so both sides look for a method or neither does.
  cases callee with
  | member object name optional position =>
    refine bind (hr.expr _) fun receiver => ?_
    dsimp only
    split
    · exact pure _
    · refine bind (erasesTo_evalAll hr _ _) fun values => ?_
      split
      · exact atLine _ _ (Method.erasesTo_call hr _ _ _)
      · exact bind (erasesTo_member _ _) fun f => atLine _ _ (hr.call _ _)
  | _ =>
    exact bind (hr.expr _) fun f => bind (erasesTo_evalAll hr _ _) fun values =>
      atLine _ _ (hr.call _ _)

theorem erasesTo_resolvePlace (invalid : FailureKind) (line line' : Nat) (target : Expr) :
    (resolvePlace r invalid line target).ErasesTo (resolvePlace r invalid line' target.erase) := by
  cases target with
  | ident name position => exact pure _
  | member object name optional position =>
    cases optional with
    | false => exact bind (hr.expr _) fun _ => pure _
    | true => exact fail _ _ _
  | index object index position =>
    refine bind (hr.expr _) fun container => bind (hr.expr _) fun key => ?_
    cases container with
    | array | object => exact pure _
    | _ => exact fail _ _ _
  | _ => exact fail _ _ _

theorem erasesTo_assignTo (line line' : Nat) (value : Value) (target : Expr) :
    (assignTo r line value target).ErasesTo (assignTo r line' value target.erase) := by
  cases target with
  | ident name position => exact erasesTo_assignVariable _ _ _ _
  | member object name optional position =>
    exact bind (hr.expr _) fun _ => write (Heap.keeps_writeMember _ _ _)
  | index object index position =>
    exact bind (hr.expr _) fun _ => bind (hr.expr _) fun _ => store _ _ (fun _ _ => rfl) _
  | _ => exact fail _ _ _

theorem erasesTo_evalUpdate (op : UpdateOp) (before : Bool) (target : Expr) (line line' : Nat) :
    (evalUpdate r op before target line).ErasesTo (evalUpdate r op before target.erase line') :=
  bind (erasesTo_resolvePlace hr _ _ _ _) fun _ => bind (erasesTo_loadPlace _ _ _) fun _ =>
    bind (erasesTo_storePlace _ _ _ _) fun _ => pure _

theorem erasesTo_evalCompound (op : BinaryOp) (target value : Expr) (line line' : Nat) :
    (evalCompound r op target value line).ErasesTo
      (evalCompound r op target.erase value.erase line') :=
  bind (erasesTo_resolvePlace hr _ _ _ _) fun _ => bind (erasesTo_loadPlace _ _ _) fun _ =>
    bind (hr.expr _) fun _ => bind (read (Heap.ignores_binary _ _ _)) fun _ =>
      bind (erasesTo_storePlace _ _ _ _) fun _ => pure _

/-- Every form of expression, given its parts. -/
theorem erasesTo_evalExpr (e : Expr) : (evalExpr r e).ErasesTo (evalExpr r e.erase) := by
  cases e with
  | number | string | bool | null => exact pure _
  | ident name position => exact erasesTo_readVariable _ _ _
  | array items position => exact bind (erasesTo_evalAll hr _ _) fun _ => allocArray _
  | object entries position => exact bind (erasesTo_evalEntries hr _ _) fun _ => allocObject _
  | binary op left right position =>
    exact bind (hr.expr _) fun _ => bind (hr.expr _) fun _ => read (Heap.ignores_binary _ _ _)
  | logical op left right position =>
    cases op with
    | and =>
      refine bind (hr.expr _) fun a => ?_
      split
      · exact bind (hr.expr _) fun _ => pure _
      · exact pure _
    | or =>
      refine bind (hr.expr _) fun a => ?_
      split
      · exact pure _
      · exact hr.expr _
  | unary op operand position =>
    cases op with
    | neg => exact bind (hr.expr _) fun _ => pure _
    | not => exact bind (hr.expr _) fun _ => pure _
  | call callee args position => exact erasesTo_evalCall hr _ _ _ _
  | member object name optional position =>
    refine bind (hr.expr _) fun receiver => ?_
    split
    · exact pure _
    · exact erasesTo_member _ _
  | index object index position =>
    exact bind (hr.expr _) fun _ => bind (hr.expr _) fun _ => read fun _ _ => rfl
  | ternary condition whenTrue whenFalse position =>
    refine bind (hr.expr _) fun c => ?_
    split
    · exact hr.expr _
    · exact hr.expr _
  | update op before target position => exact erasesTo_evalUpdate hr _ _ _ _ _
  | assign target value position =>
    exact bind (hr.expr _) fun _ => bind (erasesTo_assignTo hr _ _ _ _) fun _ => pure _
  | compound op target value position => exact erasesTo_evalCompound hr _ _ _ _ _
  | function d => exact erasesTo_closure d

end Expressions

/-! ## Statements -/

section Statements

theorem erasesTo_declare (name : String) (value : Value) (mutable : Bool) :
    (Run.declare name value mutable).ErasesTo (Run.declare name value mutable) :=
  bind scope fun _ => write fun _ _ => rfl

theorem erasesTo_inChildWith {act act' : Run α} (name : String) (value : Value) (mutable : Bool)
    (h : act.ErasesTo act') :
    (Run.inChildWith name value mutable act).ErasesTo
      (Run.inChildWith name value mutable act') :=
  bind scope fun _ => bind (update (fun _ _ => rfl) fun _ _ => rfl) fun child =>
    bind (write fun _ _ => rfl) fun _ => inScope h child

theorem erasesTo_loopControl (line line' : Nat) (outside : FailureKind) (completion : Completion) :
    (Run.loopControl line outside completion).ErasesTo
      (Run.loopControl line' outside completion) := by
  intro m hm
  unfold Run.loopControl
  rw [show m.erase.loopDepth = m.loopDepth from rfl]
  split
  · exact .failure rfl hm
  · exact .value completion hm

/-- A loop erases as one pass of it does, by the passes left. -/
theorem erasesTo_iterate {pass pass' : Run (Option Completion)} (h : pass.ErasesTo pass') :
    ∀ fuel, (iterate pass fuel).ErasesTo (iterate pass' fuel) := by
  intro fuel
  induction fuel with
  | zero => exact outOfFuel
  | succ fuel ih =>
    refine bind h fun ended => ?_
    cases ended with
    | some done => exact pure _
    | none => exact ih

variable {r : Eval} (hr : r.Blind)

include hr

theorem erasesTo_runStmts : ∀ (stmts : List Stmt) (last : Value),
    (runStmts r last stmts).ErasesTo (runStmts r last (eraseStmts stmts)) := by
  intro stmts
  induction stmts with
  | nil => intro last; exact pure _
  | cons stmt rest ih =>
    intro last
    refine bind (hr.stmt stmt) fun completion => ?_
    cases completion with
    | normal value => exact ih _
    | returned | broke | continued => exact pure _

theorem erasesTo_evalOption (e : Option Expr) :
    (evalOption r e).ErasesTo (evalOption r (eraseExpr? e)) := by
  cases e with
  | some e => exact hr.expr e
  | none => exact pure _

theorem erasesTo_runBlock (stmts : List Stmt) :
    (runBlock r stmts).ErasesTo (runBlock r (eraseStmts stmts)) :=
  inChild (erasesTo_runStmts hr _ _)

theorem erasesTo_whilePass (condition : Expr) (body : Stmt) :
    (whilePass r condition body).ErasesTo (whilePass r condition.erase body.erase) := by
  refine bind (hr.expr _) fun c => ?_
  split
  · exact bind (hr.stmt _) fun _ => pure _
  · exact pure _

theorem erasesTo_doWhilePass (body : Stmt) (condition : Expr) :
    (doWhilePass r body condition).ErasesTo (doWhilePass r body.erase condition.erase) := by
  refine bind (hr.stmt _) fun completion => ?_
  cases completion.leavesLoop? with
  | some done => exact pure _
  | none =>
    refine bind (hr.expr _) fun c => ?_
    split
    · exact pure _
    · exact pure _

theorem erasesTo_loopTest (condition : Option Expr) :
    (loopTest r condition).ErasesTo (loopTest r (eraseExpr? condition)) := by
  cases condition with
  | some e => exact bind (hr.expr e) fun _ => pure _
  | none => exact pure _

theorem erasesTo_forPass (condition update : Option Expr) (body : Stmt) :
    (forPass r condition update body).ErasesTo
      (forPass r (eraseExpr? condition) (eraseExpr? update) body.erase) := by
  refine bind (erasesTo_loopTest hr _) fun go => ?_
  cases go with
  | true =>
    refine bind (hr.stmt _) fun completion => ?_
    cases completion.leavesLoop? with
    | some done => exact pure _
    | none => exact bind (erasesTo_evalOption hr _) fun _ => pure _
  | false => exact pure _

theorem erasesTo_loopStart (init : Option Stmt) :
    (loopStart r init).ErasesTo (loopStart r (eraseStmt? init)) := by
  cases init with
  | some stmt => exact bind (hr.stmt stmt) fun _ => pure _
  | none => exact pure _

theorem erasesTo_eachPass (name : String) (mutable : Bool) (body : Stmt) : ∀ values,
    (eachPass r name mutable body values).ErasesTo (eachPass r name mutable body.erase values) := by
  intro values
  induction values with
  | nil => exact pure _
  | cons value rest ih =>
    refine bind (erasesTo_inChildWith _ _ _ (hr.stmt _)) fun completion => ?_
    cases completion.leavesLoop? with
    | some done => exact pure _
    | none => exact ih

/-- A handler is told the message of a failure, which depends on its reason only. -/
theorem erasesTo_runHandler (handler : Handler) {f f' : Failure} (hkind : f.kind = f'.kind) :
    (runHandler r handler f).ErasesTo (runHandler r handler.erase f') := by
  have hmessage : f.message = f'.message := congrArg FailureKind.message hkind
  cases handler
  unfold runHandler
  rw [hmessage]
  exact erasesTo_inChildWith _ _ _ (erasesTo_runStmts hr _ _)

theorem erasesTo_runGuarded (body : List Stmt) (handler : Option Handler) :
    (runGuarded r body handler).ErasesTo
      (runGuarded r (eraseStmts body) (eraseHandler? handler)) := by
  refine attempt_bind (erasesTo_runBlock hr _) (fun completion => ?_) fun f f' hkind => ?_
  · exact pure _
  · cases handler with
    | some handler => exact erasesTo_runHandler hr handler hkind
    | none => exact throw hkind

theorem erasesTo_runTry (body : List Stmt) (handler : Option Handler)
    (cleanup : Option (List Stmt)) :
    (runTry r body handler cleanup).ErasesTo
      (runTry r (eraseStmts body) (eraseHandler? handler) (eraseStmts? cleanup)) := by
  cases cleanup with
  | none => exact erasesTo_runGuarded hr _ _
  | some cleanup =>
    refine attempt_bind (erasesTo_runGuarded hr _ _) (fun ended => ?_) fun f f' hkind => ?_
    · refine bind (erasesTo_runBlock hr _) fun completion => ?_
      cases completion with
      | normal value => exact pure _
      | returned | broke | continued => exact pure _
    · refine bind (erasesTo_runBlock hr _) fun completion => ?_
      cases completion with
      | normal value => exact throw hkind
      | returned | broke | continued => exact pure _

/-- Every form of statement, given its parts. -/
theorem erasesTo_execStmt (s : Stmt) : (execStmt r s).ErasesTo (execStmt r s.erase) := by
  cases s with
  | expr e => exact bind (hr.expr _) fun _ => pure _
  | declare name constant init position =>
    exact bind (erasesTo_evalOption hr _) fun _ =>
      bind (erasesTo_declare _ _ _) fun _ => pure _
  | ifElse condition whenTrue whenFalse position =>
    refine bind (hr.expr _) fun c => ?_
    split
    · exact hr.stmt _
    · cases whenFalse with
      | some stmt => exact hr.stmt _
      | none => exact pure _
  | ret value position => exact bind (erasesTo_evalOption hr _) fun _ => pure _
  | block stmts position => exact erasesTo_runBlock hr _
  | whileLoop condition body position =>
    exact inLoop (erasesTo_iterate (erasesTo_whilePass hr _ _) _)
  | doWhile body condition position =>
    exact inLoop (erasesTo_iterate (erasesTo_doWhilePass hr _ _) _)
  | forLoop init condition update body position =>
    exact inChild <| bind (erasesTo_loopStart hr _) fun _ =>
      inLoop (erasesTo_iterate (erasesTo_forPass hr _ _ _) _)
  | forEach name constant traversal subject body position =>
    exact bind (hr.expr _) fun _ => bind (read fun _ _ => rfl) fun _ =>
      inLoop (erasesTo_eachPass hr _ _ _ _)
  | breakLoop position => exact erasesTo_loopControl _ _ _ _
  | continueLoop position => exact erasesTo_loopControl _ _ _ _
  | tryCatch body handler cleanup position => exact erasesTo_runTry hr _ _ _
  | throw value position => exact bind (hr.expr _) fun _ => fail _ _ _
  | function d =>
    refine bind (erasesTo_closure d) fun f => ?_
    cases d with
    | mk name params body position =>
      cases name with
      | some name => exact bind (erasesTo_declare _ _ _) fun _ => pure _
      | none => exact pure _

end Statements

/-! ## Calls -/

section Calls

theorem Builtin.erasesTo_call (which : Builtin) (args : List Value) :
    (which.call args).ErasesTo (which.call args) := by
  cases which with
  | log | warn | error => exact bind (record _ _) fun _ => pure _
  | typeof | parseInt | parseFloat | fromCharCode => exact pure _

variable {r : Eval} (hr : r.Blind)

include hr

theorem erasesTo_runBody (body : FunctionBody) :
    (runBody r body).ErasesTo (runBody r body.erase) := by
  cases body with
  | block stmts => exact bind (erasesTo_runStmts hr _ _) fun _ => pure _
  | expr value => exact hr.expr _

theorem erasesTo_callUser (d : FunctionDef) (closure : Scope) (args : List Value) :
    (callUser r d closure args).ErasesTo (callUser r d.erase closure args) := by
  unfold callUser
  rw [d.displayName_erase]
  refine bind (report _ _) fun _ => bind (step id id (fun _ => rfl) fun _ hm => ⟨hm, rfl⟩) ?_
  intro exhausted
  split
  · exact fail _ _ _
  · cases d with
    | mk name params body position =>
      exact bind (update (fun _ _ => rfl) (Heap.keeps_callFrame closure params args)) fun scope =>
        inCall (erasesTo_runBody hr body) scope

theorem erasesTo_callValue (host : Host) (callee : Value) (args : List Value) :
    (callValue host r callee args).ErasesTo (callValue host r callee args) := by
  cases callee with
  | function ref =>
    refine function_bind ref (fail _ _ _) fun f hf => ?_
    cases f with
    | user d closure => exact erasesTo_callUser hr _ _ _
    | builtin which => exact Builtin.erasesTo_call _ _
    | bound method receiver => exact Method.erasesTo_call hr _ _ _
    | host name service => exact absurd hf (by simp [Function.ofHost])
  | _ => exact fail _ _ _

end Calls

/-! ## The knot -/

/-- The evaluator is blind to positions, with any amount of fuel and whatever the host offers. -/
theorem evaluator_blind (host : Host) : ∀ fuel, (evaluator host fuel).Blind := by
  intro fuel
  induction fuel with
  | zero => exact ⟨fun _ => outOfFuel, fun _ => outOfFuel, fun _ _ => outOfFuel⟩
  | succ fuel ih =>
    exact ⟨erasesTo_evalExpr ih, erasesTo_execStmt ih, erasesTo_callValue ih host⟩

end Quill
