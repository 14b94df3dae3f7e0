import Quill.Host
import Quill.Proofs.Run.InStep.Calls

/-!
# Evaluation in step

If machines that are alike have the same registers too, and stay alike when these are set, then all
evaluation keeps in step: every expression and every statement if its parts do, and every call. The
parts may be evaluated by another evaluator on the second machine, as long as the two keep in step.
-/

set_option autoImplicit false

namespace Quill

variable {α : Type} {R P : Machine → Machine → Prop}

/-- A likeness of machines that have the same registers. -/
structure Likeness.WithRegisters (R P : Machine → Machine → Prop) : Prop extends
    Likeness R P where
  registers : ∀ {m m'}, R m m' → m'.registers = m.registers
  setRegisters : ∀ {m m'}, R m m' → ∀ kept, R (m.setRegisters kept) (m'.setRegisters kept)

/-- Evaluation of parts keeps in step. -/
structure Eval.InStep (R : Machine → Machine → Prop) (r : Eval) : Prop where
  expr : ∀ e, (r.expr e).InStep R
  stmt : ∀ s, (r.stmt s).InStep R
  call : r.CallsInStep R

/-- Two evaluators keep in step. -/
structure Eval.InStepWith (R P : Machine → Machine → Prop) (r r' : Eval) : Prop extends
    Eval.CallsInStepWith R P r r' where
  expr : ∀ e, (r.expr e).InStepWith R P (r'.expr e)
  stmt : ∀ s, (r.stmt s).InStepWith R P (r'.stmt s)

theorem Eval.InStep.self {r : Eval} (h : r.InStep R) : r.InStepWith R Never r where
  toCallsInStepWith := h.call.self
  expr e := (h.expr e).self
  stmt s := (h.stmt s).self

/-- The functions of a host keep in step, as long as the evaluator they are given does. -/
def Host.InStep (R : Machine → Machine → Prop) (host : Host) : Prop :=
  ∀ service r args, r.InStep R → (host service r args).InStep R

/-- The same where they are given two evaluators. -/
def Host.InStepWith (R P : Machine → Machine → Prop) (host : Host) : Prop :=
  ∀ service r r' args, r.InStepWith R P r' →
    (host service r args).InStepWith R P (host service r' args)

theorem Host.InStepWith.inStep {host : Host} (h : host.InStepWith R Never) : host.InStep R :=
  fun service r args hr => (h service r r args hr.self).inStep

open Run.InStepWith

section

variable (law : Likeness.WithRegisters R P)

include law

/-! ## Registers -/

theorem Likeness.WithRegisters.scope_eq {m m' : Machine} (h : R m m') : m'.scope = m.scope :=
  congrArg Registers.scope (law.registers h)

theorem Likeness.WithRegisters.loopDepth_eq {m m' : Machine} (h : R m m') :
    m'.loopDepth = m.loopDepth :=
  congrArg Registers.loopDepth (law.registers h)

theorem scope_inStep : Run.scope.Steps R P := by
  refine of_same (fun m m' h => ?_) fun _ => rfl
  unfold Run.scope
  rw [law.scope_eq h]
  exact .ok _ h

/-- The registers of the first machine alone do not matter to what has passed another one. -/
theorem Likeness.WithRegisters.past_setRegisters {m n : Machine} (h : P m n) (kept : Registers) :
    P (m.setRegisters kept) n :=
  law.past.setRegisters h kept n.registers

theorem setRegisters_inStep (kept : Registers) : (Run.setRegisters kept).Steps R P where
  ends _ _ h := .inStep (.ok () (law.setRegisters h kept))
  goesOn _ _ h := law.past_setRegisters h kept

omit law in
/-- A machine that is fetched for what is the same on both sides. -/
theorem fetch_inStep {k k' : Machine → Run α} (hk : ∀ m, (k m).InStepWith R P (k' m))
    (hsame : ∀ {m m'}, R m m' → k' m' = k' m) :
    ((get : Run Machine) >>= k).InStepWith R P ((get : Run Machine) >>= k') where
  ends m m' h := by
    show EndsOrPasses R P (k m m) (k' m' m')
    rw [hsame h]
    exact (hk m).ends h
  goesOn m _ h := (hk m).goesOn h

omit law in
theorem machineAt_bracket {σ : Type} (keep : Machine → σ) (enter : Machine → Machine)
    (leave : σ → Machine → Machine) (act : Run α) (m : Machine) :
    machineAt (Run.bracket keep enter leave act m) =
      leave (keep m) (machineAt (act (enter m))) := by
  unfold Run.bracket
  dsimp only
  cases act (enter m) <;> rfl

omit law in
/-- A bracket that keeps the same on both sides. -/
theorem bracket_inStep {σ : Type} {keep : Machine → σ} {enter : Machine → Machine}
    {leave : σ → Machine → Machine} {act act' : Run α}
    (hkeep : ∀ {m m'}, R m m' → keep m' = keep m)
    (henter : ∀ {m m'}, R m m' → R (enter m) (enter m'))
    (hleave : ∀ {m m'}, R m m' → ∀ kept, R (leave kept m) (leave kept m'))
    (hentered : ∀ {m n}, P m n → P (enter m) n)
    (hleft : ∀ {m n}, P m n → ∀ kept, P (leave kept m) n ∧ P (leave kept m) (leave kept n))
    (hact : act.InStepWith R P act') :
    (Run.bracket keep enter leave act).InStepWith R P (Run.bracket keep enter leave act') where
  ends m m' h := by
    have hends := hact.ends (henter h)
    have hmachine := machineAt_bracket keep enter leave act m
    unfold Run.bracket at hmachine ⊢
    dsimp only at hmachine ⊢
    rw [hkeep h]
    generalize act (enter m) = out, act' (enter m') = out' at hends hmachine
    cases hends with
    | inStep hends =>
      cases hends with
      | ok a h₁ => exact .inStep (.ok a (hleave h₁ _))
      | error stop h₁ => exact .inStep (.error stop (hleave h₁ _))
    | past hpast => exact .past (hmachine.symm ▸ (hleft hpast _).2)
  goesOn m _ h := by
    rw [machineAt_bracket]
    exact (hleft (hact.goesOn (hentered h)) _).1

/-- Registers set from those that there are. -/
theorem Likeness.WithRegisters.change (g : Registers → Registers) {m m' : Machine} (h : R m m') :
    R (m.setRegisters (g m.registers)) (m'.setRegisters (g m'.registers)) := by
  rw [law.registers h]
  exact law.setRegisters h _

/-- Registers set from those that there are, on machines one of which has passed the other. -/
theorem Likeness.WithRegisters.past_change (g : Registers → Registers) {m n : Machine} (h : P m n) :
    P (m.setRegisters (g m.registers)) n ∧
      P (m.setRegisters (g m.registers)) (n.setRegisters (g n.registers)) :=
  ⟨law.past_setRegisters h _, law.past.setRegisters h _ _⟩

section Brackets

variable {act act' : Run α} (hact : act.InStepWith R P act')

include hact

theorem inScope_inStep (scope : Scope) :
    (Run.inScope scope act).InStepWith R P (Run.inScope scope act') :=
  bracket_inStep law.scope_eq (law.change ({ · with scope }))
    (fun h kept => law.change ({ · with scope := kept }) h)
    (fun h => (law.past_change ({ · with scope }) h).1)
    (fun h kept => law.past_change ({ · with scope := kept }) h) hact

theorem inLoop_inStep : (Run.inLoop act).InStepWith R P (Run.inLoop act') :=
  bracket_inStep (fun _ => rfl) (law.change fun k => { k with loopDepth := k.loopDepth + 1 })
    (fun h _ => law.change (fun k => { k with loopDepth := k.loopDepth - 1 }) h)
    (fun h => (law.past_change (fun k => { k with loopDepth := k.loopDepth + 1 }) h).1)
    (fun h _ => law.past_change (fun k => { k with loopDepth := k.loopDepth - 1 }) h) hact

theorem inCall_inStep_of_body (scope : Scope) :
    (Run.inCall scope act).InStepWith R P (Run.inCall scope act') :=
  bracket_inStep (fun h => Prod.ext (law.scope_eq h) (law.loopDepth_eq h))
    (law.change fun k => ⟨scope, 0, k.callDepth + 1⟩)
    (fun h kept => law.change (fun k => ⟨kept.1, kept.2, k.callDepth - 1⟩) h)
    (fun h => (law.past_change (fun k => ⟨scope, 0, k.callDepth + 1⟩) h).1)
    (fun h kept => law.past_change (fun k => ⟨kept.1, kept.2, k.callDepth - 1⟩) h) hact

theorem inChild_inStep : (Run.inChild act).InStepWith R P (Run.inChild act') := by
  refine fetch_inStep (fun m => ?_) fun h => ?_
  · exact bind (update law.toLikeness _) fun child => inScope_inStep law hact child
  · rw [law.scope_eq h]

theorem inChildWith_inStep (name : String) (value : Value) (mutable : Bool) :
    (Run.inChildWith name value mutable act).InStepWith R P
      (Run.inChildWith name value mutable act') :=
  bind (scope_inStep law) fun _ => bind (update law.toLikeness _) fun child =>
    bind (write law.toLikeness _) fun _ => inScope_inStep law hact child

end Brackets

/-! ## Variables and members -/

theorem readVariable_inStep (line : Nat) (name : String) :
    (Run.readVariable line name).Steps R P := by
  refine of_same (fun m m' h => ?_) fun m => ?_
  · unfold Run.readVariable
    rw [law.heap h, law.scope_eq h]
    cases m.heap.lookup? m.scope name with
    | some value => exact .ok value h
    | none => exact .error _ h
  · unfold Run.readVariable
    split <;> rfl

theorem assignVariable_inStep (line : Nat) (name : String) (value : Value) :
    (Run.assignVariable line name value).Steps R P :=
  bind (scope_inStep law) fun _ => store law.toLikeness _ _ _

theorem declare_inStep (name : String) (value : Value) (mutable : Bool) :
    (Run.declare name value mutable).Steps R P :=
  bind (scope_inStep law) fun _ => write law.toLikeness _

theorem closure_inStep (d : FunctionDef) : (Run.closure d).Steps R P :=
  bind (scope_inStep law) fun _ => allocFunction law.toLikeness _

theorem member_inStep (receiver : Value) (name : String) :
    (Run.member receiver name).Steps R P := by
  unfold Run.member
  split
  · exact bind (read law.toLikeness _) fun _ => pure _
  · refine bind (read law.toLikeness _) fun field => ?_
    cases field with
    | some value => exact pure _
    | none =>
      dsimp only
      split
      · exact allocFunction law.toLikeness _
      · exact pure _

theorem loadPlace_inStep (line : Nat) (place : Place) : (loadPlace line place).Steps R P := by
  unfold loadPlace
  split
  · exact readVariable_inStep law _ _
  · exact member_inStep law _ _
  · refine bind (read law.toLikeness _) fun items => ?_
    split
    · exact pure _
    · exact fail _ _
  · exact read law.toLikeness _

theorem storePlace_inStep (line : Nat) (value : Value) (place : Place) :
    (storePlace line value place).Steps R P := by
  unfold storePlace
  cases place with
  | var name => exact assignVariable_inStep law _ _ _
  | member object name => exact write law.toLikeness _
  | index container key => exact store law.toLikeness _ _ _

theorem loopControl_inStep (line : Nat) (outside : FailureKind) (completion : Completion) :
    (Run.loopControl line outside completion).Steps R P := by
  refine of_same (fun m m' h => ?_) fun m => ?_
  · unfold Run.loopControl
    rw [law.loopDepth_eq h]
    split
    · exact .error _ h
    · exact .ok completion h
  · unfold Run.loopControl
    split <;> rfl

omit law in
/-- A loop keeps in step as one pass of it does, by the passes left. -/
theorem iterate_inStep {pass pass' : Run (Option Completion)} (hpass : pass.InStepWith R P pass')
    (fuel : Nat) : (iterate pass fuel).InStepWith R P (iterate pass' fuel) := by
  induction fuel with
  | zero => exact outOfFuel
  | succ fuel ih =>
    refine bind hpass fun ended => ?_
    cases ended with
    | some done => exact pure _
    | none => exact ih

/-! ## Expressions -/

variable {r r' : Eval} (hr : r.InStepWith R P r')

include hr

omit law in
theorem evalAll_inStep (es : List Expr) (done : Array Value) :
    (evalAll r done es).InStepWith R P (evalAll r' done es) := by
  induction es generalizing done with
  | nil => exact pure _
  | cons e rest ih => exact bind (hr.expr e) fun _ => ih _

omit law in
theorem evalEntries_inStep (entries : List (String × Expr)) (done : Dict Value) :
    (evalEntries r done entries).InStepWith R P (evalEntries r' done entries) := by
  induction entries generalizing done with
  | nil => exact pure _
  | cons entry rest ih => exact bind (hr.expr entry.2) fun _ => ih _

theorem evalCall_inStep (callee : Expr) (args : List Expr) (line : Nat) :
    (evalCall r callee args line).InStepWith R P (evalCall r' callee args line) := by
  unfold evalCall
  split
  · refine bind (hr.expr _) fun receiver => ?_
    split
    · exact pure _
    · refine bind (evalAll_inStep hr _ _) fun values => ?_
      dsimp only
      split
      · exact atLine _ (Method.call_inStep law.toLikeness hr.toCallsInStepWith _ _ _)
      · exact bind (member_inStep law _ _) fun f => atLine _ (hr.call _ _)
  · exact bind (hr.expr _) fun f => bind (evalAll_inStep hr _ _) fun values =>
      atLine _ (hr.call _ _)

omit law in
theorem resolvePlace_inStep (invalid : FailureKind) (line : Nat) (target : Expr) :
    (resolvePlace r invalid line target).InStepWith R P (resolvePlace r' invalid line target) := by
  unfold resolvePlace
  split
  · exact pure _
  · exact bind (hr.expr _) fun _ => pure _
  · refine bind (hr.expr _) fun container => bind (hr.expr _) fun key => ?_
    split
    · exact pure _
    · exact pure _
    · exact fail _ _
  · exact fail _ _

theorem assignTo_inStep (line : Nat) (value : Value) (target : Expr) :
    (assignTo r line value target).InStepWith R P (assignTo r' line value target) := by
  unfold assignTo
  split
  · exact assignVariable_inStep law _ _ _
  · exact bind (hr.expr _) fun _ => write law.toLikeness _
  · exact bind (hr.expr _) fun _ => bind (hr.expr _) fun _ => store law.toLikeness _ _ _
  · exact fail _ _

theorem evalUpdate_inStep (op : UpdateOp) (before : Bool) (target : Expr) (line : Nat) :
    (evalUpdate r op before target line).InStepWith R P (evalUpdate r' op before target line) :=
  bind (resolvePlace_inStep hr _ _ _) fun _ => bind (loadPlace_inStep law _ _) fun _ =>
    bind (storePlace_inStep law _ _ _) fun _ => pure _

theorem evalCompound_inStep (op : BinaryOp) (target value : Expr) (line : Nat) :
    (evalCompound r op target value line).InStepWith R P (evalCompound r' op target value line) :=
  bind (resolvePlace_inStep hr _ _ _) fun _ => bind (loadPlace_inStep law _ _) fun _ =>
    bind (hr.expr _) fun _ => bind (read law.toLikeness _) fun _ =>
      bind (storePlace_inStep law _ _ _) fun _ => pure _

/-- Every form of expression, given its parts. -/
theorem evalExpr_inStep (e : Expr) : (evalExpr r e).InStepWith R P (evalExpr r' e) := by
  cases e with
  | number | string | bool | null => exact pure _
  | ident name position => exact readVariable_inStep law _ _
  | array items position =>
    exact bind (evalAll_inStep hr _ _) fun _ => allocArray law.toLikeness _
  | object entries position =>
    exact bind (evalEntries_inStep hr _ _) fun _ => allocObject law.toLikeness _
  | binary op left right position | index left right position =>
    exact bind (hr.expr _) fun _ => bind (hr.expr _) fun _ => read law.toLikeness _
  | logical op left right position =>
    cases op with
    | and =>
      refine bind (hr.expr _) fun a => ?_
      split
      · exact bind (hr.expr _) fun _ => pure _
      · exact pure _
    | or =>
      refine bind (hr.expr _) fun a => ?_
      split
      · exact pure _
      · exact hr.expr _
  | unary op operand position =>
    cases op with
    | neg => exact bind (hr.expr _) fun _ => pure _
    | not => exact bind (hr.expr _) fun _ => pure _
  | call callee args position => exact evalCall_inStep law hr _ _ _
  | member object name optional position =>
    refine bind (hr.expr _) fun receiver => ?_
    split
    · exact pure _
    · exact member_inStep law _ _
  | ternary condition whenTrue whenFalse position =>
    refine bind (hr.expr _) fun c => ?_
    split
    · exact hr.expr _
    · exact hr.expr _
  | update op before target position => exact evalUpdate_inStep law hr _ _ _ _
  | assign target value position =>
    exact bind (hr.expr _) fun _ => bind (assignTo_inStep law hr _ _ _) fun _ => pure _
  | compound op target value position => exact evalCompound_inStep law hr _ _ _ _
  | function d => exact closure_inStep law d

/-! ## Statements -/

omit law in
theorem runStmts_inStep (stmts : List Stmt) (last : Value) :
    (runStmts r last stmts).InStepWith R P (runStmts r' last stmts) := by
  induction stmts generalizing last with
  | nil => exact pure _
  | cons stmt rest ih =>
    refine bind (hr.stmt stmt) fun completion => ?_
    cases completion with
    | normal value => exact ih _
    | returned | broke | continued => exact pure _

omit law in
theorem evalOption_inStep (e : Option Expr) :
    (evalOption r e).InStepWith R P (evalOption r' e) := by
  cases e with
  | some e => exact hr.expr e
  | none => exact pure _

theorem runBlock_inStep (stmts : List Stmt) :
    (runBlock r stmts).InStepWith R P (runBlock r' stmts) :=
  inChild_inStep law (runStmts_inStep hr _ _)

omit law in
theorem whilePass_inStep (condition : Expr) (body : Stmt) :
    (whilePass r condition body).InStepWith R P (whilePass r' condition body) := by
  refine bind (hr.expr _) fun c => ?_
  split
  · exact bind (hr.stmt _) fun _ => pure _
  · exact pure _

omit law in
theorem doWhilePass_inStep (body : Stmt) (condition : Expr) :
    (doWhilePass r body condition).InStepWith R P (doWhilePass r' body condition) := by
  refine bind (hr.stmt _) fun completion => ?_
  split
  · exact pure _
  · refine bind (hr.expr _) fun c => ?_
    split
    · exact pure _
    · exact pure _

omit law in
theorem forPass_inStep (condition update : Option Expr) (body : Stmt) :
    (forPass r condition update body).InStepWith R P (forPass r' condition update body) := by
  have htest : (loopTest r condition).InStepWith R P (loopTest r' condition) := by
    cases condition with
    | some e => exact bind (hr.expr e) fun _ => pure _
    | none => exact pure _
  refine bind htest fun go => ?_
  split
  · refine bind (hr.stmt _) fun completion => ?_
    split
    · exact pure _
    · exact bind (evalOption_inStep hr _) fun _ => pure _
  · exact pure _

omit law in
theorem loopStart_inStep (init : Option Stmt) :
    (loopStart r init).InStepWith R P (loopStart r' init) := by
  cases init with
  | some stmt => exact bind (hr.stmt stmt) fun _ => pure _
  | none => exact pure _

theorem eachPass_inStep (name : String) (mutable : Bool) (body : Stmt) (values : List Value) :
    (eachPass r name mutable body values).InStepWith R P
      (eachPass r' name mutable body values) := by
  induction values with
  | nil => exact pure _
  | cons value rest ih =>
    refine bind (inChildWith_inStep law (hr.stmt _) _ _ _) fun completion => ?_
    split
    · exact pure _
    · exact ih

theorem runHandler_inStep (handler : Handler) (f : Failure) :
    (runHandler r handler f).InStepWith R P (runHandler r' handler f) :=
  inChildWith_inStep law (runStmts_inStep hr _ _) _ _ _

theorem runGuarded_inStep (body : List Stmt) (handler : Option Handler) :
    (runGuarded r body handler).InStepWith R P (runGuarded r' body handler) := by
  refine bind (attempt (runBlock_inStep law hr _)) fun outcome => ?_
  split
  · exact runHandler_inStep law hr _ _
  · exact resume _

theorem runTry_inStep (body : List Stmt) (handler : Option Handler)
    (cleanup : Option (List Stmt)) :
    (runTry r body handler cleanup).InStepWith R P (runTry r' body handler cleanup) := by
  cases cleanup with
  | none => exact runGuarded_inStep law hr _ _
  | some cleanup =>
    refine bind (attempt (runGuarded_inStep law hr _ _)) fun outcome => ?_
    refine bind (runBlock_inStep law hr _) fun completion => ?_
    split
    · exact resume _
    · exact pure _

/-- Every form of statement, given its parts. -/
theorem execStmt_inStep (s : Stmt) : (execStmt r s).InStepWith R P (execStmt r' s) := by
  unfold execStmt
  rw [hr.fuel]
  cases s with
  | expr e => exact bind (hr.expr _) fun _ => pure _
  | declare name constant init position =>
    exact bind (evalOption_inStep hr _) fun _ => bind (declare_inStep law _ _ _) fun _ => pure _
  | ifElse condition whenTrue whenFalse position =>
    refine bind (hr.expr _) fun c => ?_
    split
    · exact hr.stmt _
    · cases whenFalse with
      | some stmt => exact hr.stmt _
      | none => exact pure _
  | ret value position => exact bind (evalOption_inStep hr _) fun _ => pure _
  | block stmts position => exact runBlock_inStep law hr _
  | whileLoop condition body position =>
    exact inLoop_inStep law (iterate_inStep (whilePass_inStep hr _ _) _)
  | doWhile body condition position =>
    exact inLoop_inStep law (iterate_inStep (doWhilePass_inStep hr _ _) _)
  | forLoop init condition update body position =>
    exact inChild_inStep law <| bind (loopStart_inStep hr _) fun _ =>
      inLoop_inStep law (iterate_inStep (forPass_inStep hr _ _ _) _)
  | forEach name constant traversal subject body position =>
    exact bind (hr.expr _) fun _ => bind (read law.toLikeness _) fun _ =>
      inLoop_inStep law (eachPass_inStep law hr _ _ _ _)
  | breakLoop position | continueLoop position => exact loopControl_inStep law _ _ _
  | tryCatch body handler cleanup position => exact runTry_inStep law hr _ _ _
  | throw value position => exact bind (hr.expr _) fun _ => fail _ _
  | function d =>
    refine bind (closure_inStep law d) fun f => ?_
    dsimp only
    split
    · exact bind (declare_inStep law _ _ _) fun _ => pure _
    · exact pure _

/-! ## Calls and programs -/

theorem runBody_inStep (scope : Scope) (body : FunctionBody) :
    (Run.inCall scope (runBody r body)).InStepWith R P (Run.inCall scope (runBody r' body)) := by
  refine inCall_inStep_of_body law ?_ scope
  cases body with
  | block stmts => exact bind (runStmts_inStep hr _ _) fun _ => pure _
  | expr value => exact hr.expr _

theorem execute_inStep (program : List Stmt) :
    (execute r program).InStepWith R P (execute r' program) := by
  refine bind (report law.toLikeness _ _) fun _ => fetch_inStep (fun m => ?_) fun h => ?_
  · dsimp only
    refine bind (attempt (runStmts_inStep hr _ _)) fun outcome => ?_
    cases outcome with
    | ok completion => exact bind (report law.toLikeness _ _) fun _ => pure _
    | error f =>
      refine bind (setRegisters_inStep law _) fun _ => ?_
      exact bind (report law.toLikeness _ _) fun _ => throw _
  · rw [law.registers h]

end

/-- The evaluator keeps in step with any amount of fuel. -/
theorem evaluator_inStep (law : Likeness.WithRegisters R Never) (hrecord : RecordsInStep R Never)
    {host : Host} (hhost : host.InStep R) (fuel : Nat) : (evaluator host fuel).InStep R := by
  induction fuel with
  | zero =>
    exact ⟨fun _ => outOfFuel.inStep, fun _ => outOfFuel.inStep, fun _ _ => outOfFuel.inStep⟩
  | succ fuel ih =>
    have hcall := callValue_inStep law.toLikeness (runBody_inStep law ih.self) ih.call.self
      (fun service args => (hhost service _ args ih).self) hrecord
    exact ⟨fun e => (evalExpr_inStep law ih.self e).inStep,
      fun s => (execStmt_inStep law ih.self s).inStep,
      fun callee args => (hcall callee args).inStep⟩

/-! ## The small host -/

/-- All services but the one that runs a text, which is evaluation in the scope at work. -/
theorem Service.run_inStep (law : Likeness R P) {r r' : Eval} (hr : r.CallsInStepWith R P r')
    (hlimit : ∀ depth, (Service.setLimit depth).Steps R P) {service : Service}
    (hservice : service ≠ .exec) (args : List Value) :
    (service.run r args).InStepWith R P (service.run r' args) := by
  unfold Service.run
  split
  · exact pure _
  · exact pure _
  · exact allocArray law _
  · exact Run.InStepWith.fail _ _
  · exact Run.InStepWith.fail _ _
  · exact hr.call _ _
  · split
    · exact pure _
    · exact pure _
  · exact absurd rfl hservice
  · exact absurd rfl hservice
  · exact bind (hlimit _) fun _ => pure _
  · exact bind (hlimit _) fun _ => pure _

theorem smallHost_inStepWith (law : Likeness.WithRegisters R P)
    (hlimit : ∀ depth, (Service.setLimit depth).Steps R P) : smallHost.InStepWith R P := by
  intro service r r' args hr
  have hexec (source : String) :
      (Service.execSource r source).InStepWith R P (Service.execSource r' source) := by
    unfold Service.execSource
    split
    · exact execute_inStep law hr _
    · exact fail _ _
  unfold smallHost
  split
  · next known _ =>
    by_cases hknown : known = .exec
    · subst hknown
      cases args with
      | nil => exact hexec _
      | cons v _ => exact hexec _
    · exact Service.run_inStep law.toLikeness hr.toCallsInStepWith hlimit hknown args
  · exact pure _

theorem smallHost_inStep (law : Likeness.WithRegisters R Never)
    (hlimit : ∀ depth, (Service.setLimit depth).InStep R) : smallHost.InStep R :=
  (smallHost_inStepWith law fun depth => (hlimit depth).self).inStep

end Quill
