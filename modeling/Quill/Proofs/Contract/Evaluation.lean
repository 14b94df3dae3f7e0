import Quill.Proofs.Contract.Basic
import Quill.Proofs.Syntax.Nodes

/-!
# Evaluation keeps contracts

The walk through all methods, expressions, statements and calls, done once for every contract.
Evaluating a node keeps the contract if the node is one that the contract admits and if evaluating
what is below the node keeps it, along with every call. How that is known is left to the contract:
for most of them fuel ties the knot, which is `evaluator_meets`.
-/

set_option autoImplicit false

namespace Quill

open Run Run.Meets Contract

variable {α : Type}

/-! ## What a contract asks of nodes -/

/-- The names that a statement binds in the frame in which it runs. Blocks, handlers and the loops
that declare variables have frames of their own. -/
def Stmt.declared : Stmt → List String
  | .declare name _ _ _ => [name]
  | .function d => d.name.toList
  | .ifElse _ whenTrue none _ => whenTrue.declared
  | .ifElse _ whenTrue (some whenFalse) _ => whenTrue.declared ++ whenFalse.declared
  | .whileLoop _ body _ | .doWhile body _ _ => body.declared
  | _ => []

/-- The name of a member that is read. -/
def Node.memberName? : Node → Option String
  | expr (.member _ name _ _) => some name
  | _ => none

/-- The node is a loop whose passes are not counted before it begins. -/
def Node.repeats : Node → Bool
  | stmt (.whileLoop ..) | stmt (.doWhile ..) | stmt (.forLoop ..) => true
  | _ => false

structure Contract.Admits (C : Contract) (n : Node) : Prop where
  line : C.line n.line
  /-- A method that is read becomes a function in the heap. -/
  method : ∀ {name receiver method}, n.memberName? = some name →
    MethodTable.standard.lookup? receiver name = some method →
    C.function (.bound method receiver)
  function : ∀ {d}, n = .function d → ∀ scope, C.function (.user d scope)
  repeats : n.repeats = true → ∀ calls limit, C.mayStop calls limit

/-- The node is admitted at every depth, and evaluation of what is below it keeps the contract. -/
structure Contract.Serves (C : Contract) (r : Eval) (n : Node) : Prop where
  admits : n.Everywhere C.Admits
  expr : ∀ {e}, (Node.expr e).Below n → (r.expr e).Meets C [] true
  stmt : ∀ {s}, (Node.stmt s).Below n → (r.stmt s).Meets C s.declared true
  call : ∀ callee args, (r.call callee args).Meets C [] false

variable {C : Contract} {r : Eval} {n c : Node}

theorem Contract.Serves.child (h : C.Serves r n) (hc : c ∈ n.children) : C.Serves r c where
  admits := h.admits.below (.child hc)
  expr he := h.expr (he.trans (.child hc))
  stmt hs := h.stmt (hs.trans (.child hc))
  call := h.call

theorem Contract.Serves.exprChild {e : Expr} (h : C.Serves r n) (hc : .expr e ∈ n.children) :
    (r.expr e).Meets C [] true :=
  h.expr (.child hc)

theorem Contract.Serves.stmtChild {s : Stmt} (h : C.Serves r n) (hc : .stmt s ∈ n.children) :
    (r.stmt s).Meets C s.declared true :=
  h.stmt (.child hc)

/-! ## Methods -/

section Methods

variable (law : C.Lawful)

include law

theorem StringMethod.meets_call (method : StringMethod) (s : String) (args : List Value) :
    (method.call s args).Meets C [] false := by
  unfold StringMethod.call
  split
  · exact allocArray law _
  · exact pure law _

theorem meets_callback (method : ArrayMethod) (args : List Value) :
    (callback method args).Meets C [] false := by
  unfold callback
  split
  · exact pure law _
  · exact failUnlocated law _

theorem meets_changeArray (a : ArrayRef) (answer : Array Value → α)
    (change : Array Value → Array Value) : (changeArray a answer change).Meets C [] false :=
  bind law (read law _) fun _ => bind law (write law fun _ => .array a change) fun _ => pure law _

variable (hstop : ∀ calls limit, C.mayStop calls limit)
  (hcall : ∀ callee args, (r.call callee args).Meets C [] false)

include hstop hcall

theorem meets_visitFrom {σ τ : Type} (a : ArrayRef) (f : Value)
    {visit : σ → Value → Nat → Value → Run (Visit σ τ)}
    (hvisit : ∀ state item i answer, (visit state item i answer).Meets C [] false) :
    ∀ (fuel i : Nat) (state : σ), (visitFrom r a f visit fuel i state).Meets C [] false := by
  intro fuel
  induction fuel with
  | zero => intro i state; exact outOfFuel law hstop
  | succ fuel ih =>
    intro i state
    refine bind law (read law _) fun item => ?_
    cases item with
    | none => exact pure law _
    | some item =>
      refine bind law (hcall _ _) fun answer => bind law (hvisit _ _ _ _) fun visited => ?_
      cases visited with
      | next state => exact ih _ _
      | finish result => exact pure law _

theorem meets_visitAll (a : ArrayRef) (f : Value) : (visitAll r a f).Meets C [] false :=
  bind law (meets_visitFrom law hstop hcall a f (fun _ _ _ _ => pure law _) _ _ _) fun _ =>
    pure law _

theorem meets_collect (a : ArrayRef) (f : Value) (visit : Value → Value → Heap → Array Value) :
    (collect r a f visit).Meets C [] false := by
  refine bind law (meets_visitFrom law hstop hcall a f (fun _ _ _ _ => ?_) _ _ _) fun visited => ?_
  · exact bind law (read law _) fun _ => pure law _
  · cases visited with
    | next out => exact allocArray law _
    | finish result => exact result.elim

theorem meets_search (a : ArrayRef) (f : Value) (wanted : Bool) :
    (search r a f wanted).Meets C [] false := by
  refine bind law (meets_visitFrom law hstop hcall a f (fun _ _ _ _ => pure law _) _ _ _)
    fun visited => ?_
  cases visited with
  | next _ => exact pure law _
  | finish hit => exact pure law _

theorem meets_foldFrom (a : ArrayRef) (f : Value) :
    ∀ (fuel i : Nat) (acc : Value), (foldFrom r a f fuel i acc).Meets C [] false := by
  intro fuel
  induction fuel with
  | zero => intro i acc; exact outOfFuel law hstop
  | succ fuel ih =>
    intro i acc
    refine bind law (read law _) fun item => ?_
    cases item with
    | none => exact pure law _
    | some item => exact bind law (hcall _ _) fun acc => ih _ _

theorem meets_foldElements (a : ArrayRef) (f initial : Value) :
    (foldElements r a f initial).Meets C [] false := by
  unfold foldElements
  split
  · refine bind law (read law _) fun first => ?_
    cases first with
    | none => exact failUnlocated law _
    | some first => exact meets_foldFrom law hstop hcall a f _ _ _
  · exact meets_foldFrom law hstop hcall a f _ _ _

omit hstop hcall in
theorem ArrayMethod.meets_call (method : ArrayMethod) (a : ArrayRef) (args : List Value)
    (hstop : method.takesCallback = true → ∀ calls limit, C.mayStop calls limit)
    (hcall : method.takesCallback = true → ∀ callee args, (r.call callee args).Meets C [] false) :
    (method.call r a args).Meets C [] false := by
  have hcallback := meets_callback law method args
  unfold ArrayMethod.call
  cases method with
  | push | pop | shift | unshift | reverse => exact meets_changeArray law a _ _
  | indexOf | includes | join => exact bind law (read law _) fun _ => pure law _
  | slice | concat | flat => exact bind law (read law _) fun _ => allocArray law _
  | flatMap | map | filter =>
    exact bind law hcallback fun f => meets_collect law (hstop rfl) (hcall rfl) a f _
  | forEach => exact bind law hcallback fun f => meets_visitAll law (hstop rfl) (hcall rfl) a f
  | find | findIndex | someOf | every =>
    exact bind law hcallback fun f =>
      bind law (meets_search law (hstop rfl) (hcall rfl) a f _) fun _ => pure law _
  | reduce =>
    exact bind law hcallback fun f => meets_foldElements law (hstop rfl) (hcall rfl) a f _

omit hstop hcall in
/-- A method can be called wherever it may stand in the heap as a function. Only one that may stop
calls back. -/
theorem Method.meets_call {method : Method} {receiver : Value}
    (hmethod : C.function (.bound method receiver))
    (hcall : (∀ calls limit, C.mayStop calls limit) →
      ∀ callee args, (r.call callee args).Meets C [] false) (args : List Value) :
    (method.call r receiver args).Meets C [] false := by
  unfold Method.call
  split
  · exact StringMethod.meets_call law _ _ _
  · have hstop := law.callback hmethod
    exact ArrayMethod.meets_call law _ _ _ hstop fun hback => hcall (hstop hback)
  · exact pure law _

end Methods

/-! ## Variables and members -/

section Members

variable (law : C.Lawful)

include law

theorem meets_readVariable {line : Nat} (hline : C.line line) (name : String) :
    (Run.readVariable line name).Meets C [] true := by
  intro m hm
  unfold Run.readVariable
  split
  · exact .refl law hm
  · exact ⟨.refl law hm, .inr hline⟩

theorem meets_assignVariable {line : Nat} (hline : C.line line) (name : String) (value : Value) :
    (Run.assignVariable line name value).Meets C [] true :=
  bind law (scope law) fun _ => store law hline fun _ _ => Heap.step_of_variableSlot value

theorem meets_storeIndex {line : Nat} (hline : C.line line) (container key value : Value) :
    (Run.store line (·.indexSlot container key) value).Meets C [] true :=
  store law hline fun _ _ => Heap.step_of_indexSlot value

theorem meets_closure {d : FunctionDef} (hd : ∀ scope, C.function (.user d scope)) :
    (Run.closure d).Meets C [] true :=
  bind law (scope law) fun scope => allocFunction law (hd scope)

theorem meets_member {name : String} (hname : ∀ {receiver method},
      MethodTable.standard.lookup? receiver name = some method →
      C.function (.bound method receiver)) (receiver : Value) :
    (Run.member receiver name).Meets C [] true := by
  unfold Run.member
  split
  · exact bind law (read law _) fun _ => pure law _
  · refine bind law (read law _) fun field => ?_
    cases field with
    | some value => exact pure law _
    | none =>
      dsimp only
      split
      · next hlookup => exact allocFunction law (hname hlookup)
      · exact pure law _

end Members

/-! ## Expressions -/

section Expressions

variable (law : C.Lawful)

include law

theorem meets_evalAll {es : List Expr} (h : ∀ e ∈ es, (r.expr e).Meets C [] true) :
    ∀ done, (evalAll r done es).Meets C [] true := by
  induction es with
  | nil => intro done; exact pure law _
  | cons e rest ih =>
    intro done
    rw [List.forall_mem_cons] at h
    exact bind law h.1 fun _ => ih h.2 _

theorem meets_evalEntries {entries : List (String × Expr)}
    (h : ∀ e ∈ entries.map Prod.snd, (r.expr e).Meets C [] true) :
    ∀ done, (evalEntries r done entries).Meets C [] true := by
  induction entries with
  | nil => intro done; exact pure law _
  | cons entry rest ih =>
    intro done
    rw [List.map_cons, List.forall_mem_cons] at h
    exact bind law h.1 fun _ => ih h.2 _

theorem meets_evalCall {callee : Expr} {args : List Expr} {position : Position}
    (h : C.Serves r (.expr (.call callee args position))) :
    (evalCall r callee args position.line).Meets C [] true := by
  have hline : C.line position.line := h.admits.here.line
  have hargs : ∀ done, (evalAll r done args).Meets C [] true :=
    meets_evalAll law fun e he => h.exprChild (by simp [he])
  have hcallee : .expr callee ∈ (Node.expr (.call callee args position)).children :=
    List.mem_cons_self
  cases callee with
  | member object name optional place =>
    have hmember := h.child hcallee
    refine bind law (hmember.exprChild (by simp)) fun receiver => ?_
    split
    · exact pure law _
    · refine bind law (hargs _) fun values => ?_
      dsimp only
      split
      · next hlookup =>
        have hmethod := hmember.admits.here.method rfl hlookup
        exact atLine hline (Method.meets_call law hmethod (fun _ => h.call) _)
      · refine bind law (meets_member law (hmember.admits.here.method rfl) _) fun f => ?_
        exact atLine hline (h.call _ _)
  | _ =>
    exact bind law (h.exprChild hcallee) fun f => bind law (hargs _) fun values =>
      atLine hline (h.call _ _)

/-- A place that a target stands for. Of a member it has the name. -/
def Place.Of (target : Expr) : Place → Prop
  | .member _ name => (Node.expr target).memberName? = some name
  | .var _ | .index _ _ => True

omit law in
theorem delivers_resolvePlace (r : Eval) (invalid : FailureKind) (line : Nat) (target : Expr) :
    (resolvePlace r invalid line target).Delivers (Place.Of target) := by
  have hfail : (Run.fail line invalid : Run Place).Delivers (Place.Of target) := by
    intro m place m' hok
    cases hok
  cases target with
  | ident name position => exact .pure trivial
  | member object name optional position =>
    cases optional with
    | false => exact .bind fun _ => .pure rfl
    | true => exact hfail
  | index object index position =>
    refine .bind fun container => .bind fun key => ?_
    cases container with
    | array | object => exact .pure trivial
    | _ => exact hfail
  | _ => exact hfail

theorem meets_resolvePlace {target : Expr} (h : C.Serves r (.expr target)) {line : Nat}
    (hline : C.line line) (invalid : FailureKind) :
    (resolvePlace r invalid line target).Meets C [] true := by
  cases target with
  | ident name position => exact pure law _
  | member object name optional position =>
    cases optional with
    | false => exact bind law (h.exprChild (by simp)) fun _ => pure law _
    | true => exact fail law hline _
  | index object index position =>
    refine bind law (h.exprChild (by simp)) fun container => ?_
    refine bind law (h.exprChild (by simp)) fun key => ?_
    cases container with
    | array | object => exact pure law _
    | _ => exact fail law hline _
  | _ => exact fail law hline _

theorem meets_loadPlace {target : Expr} (h : C.Serves r (.expr target)) {line : Nat}
    (hline : C.line line) {place : Place} (hplace : place.Of target) :
    (loadPlace line place).Meets C [] true := by
  unfold loadPlace
  split
  · exact meets_readVariable law hline _
  · exact meets_member law (h.admits.here.method hplace) _
  · refine bind law (read law _) fun items => ?_
    split
    · exact pure law _
    · exact fail law hline _
  · exact read law _

theorem meets_storePlace {line : Nat} (hline : C.line line) (value : Value) (place : Place) :
    (storePlace line value place).Meets C [] true := by
  cases place with
  | var name => exact meets_assignVariable law hline _ _
  | member object name => exact write law fun h => h.step_writeMember _ _ _
  | index container key => exact meets_storeIndex law hline _ _ _

theorem meets_assignTo {target : Expr} (h : C.Serves r (.expr target)) {line : Nat}
    (hline : C.line line) (value : Value) : (assignTo r line value target).Meets C [] true := by
  cases target with
  | ident name position => exact meets_assignVariable law hline _ _
  | member object name optional position =>
    exact bind law (h.exprChild (by simp)) fun _ =>
      write law fun h => h.step_writeMember _ _ _
  | index object index position =>
    refine bind law (h.exprChild (by simp)) fun container => ?_
    refine bind law (h.exprChild (by simp)) fun key => ?_
    exact meets_storeIndex law hline _ _ _
  | _ => exact fail law hline _

theorem meets_evalUpdate {target : Expr} (h : C.Serves r (.expr target)) {line : Nat}
    (hline : C.line line) (op : UpdateOp) (before : Bool) :
    (evalUpdate r op before target line).Meets C [] true := by
  refine bind_of_delivers law (meets_resolvePlace law h hline _)
    (delivers_resolvePlace r _ line target) fun place hplace => ?_
  exact bind law (meets_loadPlace law h hline hplace) fun _ =>
    bind law (meets_storePlace law hline _ _) fun _ => pure law _

theorem meets_evalCompound {target value : Expr} (h : C.Serves r (.expr target)) {line : Nat}
    (hline : C.line line) (hvalue : (r.expr value).Meets C [] true) (op : BinaryOp) :
    (evalCompound r op target value line).Meets C [] true := by
  refine bind_of_delivers law (meets_resolvePlace law h hline _)
    (delivers_resolvePlace r _ line target) fun place hplace => ?_
  exact bind law (meets_loadPlace law h hline hplace) fun _ => bind law hvalue fun _ =>
    bind law (read law _) fun _ => bind law (meets_storePlace law hline _ _) fun _ => pure law _

/-- Every form of expression, given what is below it. -/
theorem meets_evalExpr {e : Expr} (h : C.Serves r (.expr e)) :
    (evalExpr r e).Meets C [] true := by
  have hline : C.line e.line := h.admits.here.line
  cases e with
  | number | string | bool | null => exact pure law _
  | ident name position => exact meets_readVariable law hline _
  | array items position =>
    have hitems : ∀ done, (evalAll r done items).Meets C [] true :=
      meets_evalAll law fun e he => h.exprChild (by simp [he])
    exact bind law (hitems _) fun _ => allocArray law _
  | object entries position =>
    have hentries : ∀ done, (evalEntries r done entries).Meets C [] true :=
      meets_evalEntries law fun e he => h.exprChild (List.mem_map_of_mem he)
    exact bind law (hentries _) fun _ => allocObject law _
  | binary op left right position =>
    have hleft := h.exprChild (e := left) (by simp)
    have hright := h.exprChild (e := right) (by simp)
    exact bind law hleft fun _ => bind law hright fun _ => read law _
  | logical op left right position =>
    have hleft := h.exprChild (e := left) (by simp)
    have hright := h.exprChild (e := right) (by simp)
    cases op with
    | and =>
      refine bind law hleft fun a => ?_
      split
      · exact bind law hright fun _ => pure law _
      · exact pure law _
    | or =>
      refine bind law hleft fun a => ?_
      split
      · exact pure law _
      · exact hright
  | unary op operand position =>
    have hoperand := h.exprChild (e := operand) (by simp)
    cases op with
    | neg => exact bind law hoperand fun _ => pure law _
    | not => exact bind law hoperand fun _ => pure law _
  | call callee args position => exact meets_evalCall law h
  | member object name optional position =>
    refine bind law (h.exprChild (by simp)) fun receiver => ?_
    split
    · exact pure law _
    · exact meets_member law (h.admits.here.method rfl) _
  | index object index position =>
    refine bind law (h.exprChild (by simp)) fun container => ?_
    exact bind law (h.exprChild (by simp)) fun key => read law _
  | ternary condition whenTrue whenFalse position =>
    refine bind law (h.exprChild (by simp)) fun test => ?_
    split
    · exact h.exprChild (by simp)
    · exact h.exprChild (by simp)
  | update op before target position =>
    exact meets_evalUpdate law (h.child (by simp)) hline op before
  | assign target value position =>
    have htarget := h.child (c := .expr target) (by simp)
    have hvalue := h.exprChild (e := value) (by simp)
    exact bind law hvalue fun _ => bind law (meets_assignTo law htarget hline _) fun _ => pure law _
  | compound op target value position =>
    have htarget := h.child (c := .expr target) (by simp)
    have hvalue := h.exprChild (e := value) (by simp)
    exact meets_evalCompound law htarget hline hvalue op
  | function d =>
    have hd := (h.child (c := .function d) (by simp)).admits.here
    exact meets_closure law (hd.function rfl)

end Expressions

/-! ## Statements -/

/-- Binding a name in a new frame is declaring it there. -/
theorem Run.inChildWith_eq (name : String) (value : Value) (mutable : Bool) (act : Run α) :
    Run.inChildWith name value mutable act =
      Run.inChild (Run.declare name value mutable >>= fun _ => act) := rfl

section Statements

variable (law : C.Lawful) {names : List String}

include law

theorem meets_inChildWith {act : Run α} (name : String) (value : Value) (mutable : Bool)
    (h : act.Meets C names true) : (Run.inChildWith name value mutable act).Meets C [] true := by
  have hdeclare : (Run.declare name value mutable).Meets C (name :: names) true :=
    mono law (by simp) (declare law name value mutable)
  have hact : act.Meets C (name :: names) true := mono law (by simp) h
  rw [Run.inChildWith_eq]
  exact inChild law (bind law hdeclare fun _ => hact)

theorem meets_loopControl {line : Nat} (hline : C.line line) (outside : FailureKind)
    (completion : Completion) : (Run.loopControl line outside completion).Meets C names true := by
  intro m hm
  unfold Run.loopControl
  split
  · exact ⟨.refl law hm, .inr hline⟩
  · exact .refl law hm

/-- A loop keeps what one pass of it keeps, by the passes left. -/
theorem meets_iterate (hstop : ∀ calls limit, C.mayStop calls limit)
    {pass : Run (Option Completion)} (h : pass.Meets C names true) :
    ∀ fuel, (iterate pass fuel).Meets C names true := by
  intro fuel
  induction fuel with
  | zero => exact outOfFuel law hstop
  | succ fuel ih =>
    refine bind law h fun ended => ?_
    cases ended with
    | some done => exact pure law _
    | none => exact ih

theorem meets_runStmts {stmts : List Stmt} (h : ∀ s ∈ stmts, (r.stmt s).Meets C names true) :
    ∀ last, (runStmts r last stmts).Meets C names true := by
  induction stmts with
  | nil => intro last; exact pure law _
  | cons stmt rest ih =>
    intro last
    rw [List.forall_mem_cons] at h
    refine bind law h.1 fun completion => ?_
    cases completion with
    | normal value => exact ih h.2 _
    | returned | broke | continued => exact pure law _

theorem meets_evalOption {e : Option Expr} (h : ∀ e' ∈ e, (r.expr e').Meets C [] true) :
    (evalOption r e).Meets C [] true := by
  cases e with
  | some e => exact h e rfl
  | none => exact pure law _

/-- The names that statements bind together. -/
theorem meets_runStmts_declared {stmts : List Stmt}
    (h : ∀ s ∈ stmts, (r.stmt s).Meets C s.declared true) (last : Value) :
    (runStmts r last stmts).Meets C (stmts.flatMap Stmt.declared) true := by
  refine meets_runStmts law (fun s hs => mono law ?_ (h s hs)) last
  exact fun name hname => List.mem_flatMap.mpr ⟨s, hs, hname⟩

theorem meets_runBlock {stmts : List Stmt}
    (h : ∀ s ∈ stmts, (r.stmt s).Meets C s.declared true) : (runBlock r stmts).Meets C [] true :=
  inChild law (meets_runStmts_declared law h .null)

theorem meets_whilePass {condition : Expr} {body : Stmt}
    (hcondition : (r.expr condition).Meets C [] true) (hbody : (r.stmt body).Meets C names true) :
    (whilePass r condition body).Meets C names true := by
  refine bind law (anywhere law hcondition) fun v => ?_
  split
  · exact bind law hbody fun _ => pure law _
  · exact pure law _

theorem meets_doWhilePass {condition : Expr} {body : Stmt}
    (hcondition : (r.expr condition).Meets C [] true) (hbody : (r.stmt body).Meets C names true) :
    (doWhilePass r body condition).Meets C names true := by
  refine bind law hbody fun completion => ?_
  split
  · exact pure law _
  · refine bind law (anywhere law hcondition) fun v => ?_
    split
    · exact pure law _
    · exact pure law _

theorem meets_loopTest {condition : Option Expr}
    (h : ∀ e ∈ condition, (r.expr e).Meets C [] true) : (loopTest r condition).Meets C [] true := by
  cases condition with
  | some e => exact bind law (h e rfl) fun _ => pure law _
  | none => exact pure law _

theorem meets_forPass {condition update : Option Expr} {body : Stmt}
    (hcondition : ∀ e ∈ condition, (r.expr e).Meets C [] true)
    (hupdate : ∀ e ∈ update, (r.expr e).Meets C [] true)
    (hbody : (r.stmt body).Meets C names true) :
    (forPass r condition update body).Meets C names true := by
  refine bind law (anywhere law (meets_loopTest law hcondition)) fun go => ?_
  split
  · refine bind law hbody fun completion => ?_
    split
    · exact pure law _
    · exact bind law (anywhere law (meets_evalOption law hupdate)) fun _ => pure law _
  · exact pure law _

theorem meets_loopStart {init : Option Stmt} (h : ∀ s ∈ init, (r.stmt s).Meets C names true) :
    (loopStart r init).Meets C names true := by
  cases init with
  | some stmt => exact bind law (h stmt rfl) fun _ => pure law _
  | none => exact pure law _

theorem meets_eachPass {body : Stmt} (hbody : (r.stmt body).Meets C names true) (name : String)
    (mutable : Bool) : ∀ values, (eachPass r name mutable body values).Meets C [] true := by
  intro values
  induction values with
  | nil => exact pure law _
  | cons value rest ih =>
    refine bind law (meets_inChildWith law _ _ _ hbody) fun completion => ?_
    split
    · exact pure law _
    · exact ih

theorem meets_runGuarded {body : List Stmt} {handler : Option Handler}
    (hbody : ∀ s ∈ body, (r.stmt s).Meets C s.declared true)
    (hhandler : ∀ clause ∈ handler, ∀ s ∈ clause.body, (r.stmt s).Meets C s.declared true) :
    (runGuarded r body handler).Meets C [] true := by
  refine attempt_bind law (meets_runBlock law hbody) (fun completion => ?_) fun f hf => ?_
  · exact pure law _
  · cases handler with
    | none => exact throw law hf
    | some clause =>
      exact meets_inChildWith law _ _ _ (meets_runStmts_declared law (hhandler clause rfl) _)

theorem meets_runTry {body : List Stmt} {handler : Option Handler} {cleanup : Option (List Stmt)}
    (hguarded : (runGuarded r body handler).Meets C [] true)
    (hcleanup : ∀ stmts ∈ cleanup, ∀ s ∈ stmts, (r.stmt s).Meets C s.declared true) :
    (runTry r body handler cleanup).Meets C [] true := by
  cases cleanup with
  | none => exact hguarded
  | some cleanup =>
    have hblock := meets_runBlock law (hcleanup cleanup rfl)
    refine attempt_bind law hguarded (fun completion => ?_) fun f hf => ?_
    · refine bind law hblock fun ended => ?_
      cases ended with
      | normal value => exact pure law _
      | returned | broke | continued => exact pure law _
    · refine bind law hblock fun ended => ?_
      cases ended with
      | normal value => exact throw law hf
      | returned | broke | continued => exact pure law _

/-- Every form of statement, given what is below it. -/
theorem meets_execStmt {s : Stmt} (h : C.Serves r (.stmt s)) :
    (execStmt r s).Meets C s.declared true := by
  have hline : C.line s.position.line := h.admits.here.line
  cases s with
  | expr e => exact bind law (h.exprChild (by simp)) fun _ => pure law _
  | declare name constant init position =>
    have hinit : (evalOption r init).Meets C [] true :=
      meets_evalOption law fun e he => h.exprChild (by simpa using he)
    exact bind law (anywhere law hinit) fun value =>
      bind law (declare law name value _) fun _ => pure law _
  | ifElse condition whenTrue whenFalse position =>
    have hcondition := h.exprChild (e := condition) (by simp)
    have htrue := h.stmtChild (s := whenTrue) (by simp)
    refine bind law (anywhere law hcondition) fun v => ?_
    cases whenFalse with
    | none =>
      split
      · exact htrue
      · exact pure law _
    | some whenFalse =>
      split
      · exact mono law (List.subset_append_left _ _) htrue
      · exact mono law (List.subset_append_right _ _) (h.stmtChild (by simp))
  | ret value position =>
    have hvalue : (evalOption r value).Meets C [] true :=
      meets_evalOption law fun e he => h.exprChild (by simpa using he)
    exact bind law hvalue fun _ => pure law _
  | block stmts position => exact meets_runBlock law fun s hs => h.stmtChild (by simpa using hs)
  | whileLoop condition body position =>
    have hpass := meets_whilePass law (h.exprChild (e := condition) (by simp))
      (h.stmtChild (s := body) (by simp))
    exact inLoop (meets_iterate law (h.admits.here.repeats rfl) hpass _)
  | doWhile body condition position =>
    have hpass := meets_doWhilePass law (h.exprChild (e := condition) (by simp))
      (h.stmtChild (s := body) (by simp))
    exact inLoop (meets_iterate law (h.admits.here.repeats rfl) hpass _)
  | forLoop init condition update body position =>
    -- The first part binds its names in the frame of the loop, where the body may bind others.
    let names := init.toList.flatMap Stmt.declared ++ body.declared
    have hinit : ∀ s ∈ init, (r.stmt s).Meets C names true := by
      rintro s rfl
      exact mono law (by simp [names]) (h.stmtChild (by simp))
    have hbody : (r.stmt body).Meets C names true :=
      mono law (List.subset_append_right _ _) (h.stmtChild (by simp))
    have hpass : (forPass r condition update body).Meets C names true :=
      meets_forPass law (fun e he => h.exprChild (by simp [Option.mem_def.mp he]))
        (fun e he => h.exprChild (by simp [Option.mem_def.mp he])) hbody
    exact inChild law (bind law (meets_loopStart law hinit) fun _ =>
      inLoop (meets_iterate law (h.admits.here.repeats rfl) hpass _))
  | forEach name constant traversal subject body position =>
    refine bind law (h.exprChild (by simp)) fun container => bind law (read law _) fun values => ?_
    exact inLoop (meets_eachPass law (h.stmtChild (s := body) (by simp)) _ _ _)
  | breakLoop position => exact meets_loopControl law hline _ _
  | continueLoop position => exact meets_loopControl law hline _ _
  | tryCatch body handler cleanup position =>
    refine meets_runTry law (meets_runGuarded law ?_ ?_) ?_
    · exact fun s hs => h.stmtChild (by simp [hs])
    · rintro clause rfl s hs
      exact h.stmtChild (by simp [hs])
    · rintro stmts rfl s hs
      exact h.stmtChild (by simp [hs])
  | throw value position =>
    exact bind law (h.exprChild (by simp)) fun _ => fail law hline _
  | function d =>
    have hd := (h.child (c := .function d) (by simp)).admits.here
    refine bind law (anywhere law (meets_closure law (hd.function rfl))) fun f => ?_
    dsimp only [Stmt.declared]
    cases d.name with
    | some name => exact bind law (declare law name f true) fun _ => pure law _
    | none => exact pure law _

end Statements

/-! ## Calls -/

/-- The machine in which the body of a called function begins. -/
def Machine.enterCall (m : Machine) (closure : Scope) (params : List String) (args : List Value) :
    Machine :=
  let (scope, heap) := callFrame m.heap closure params args
  { m with heap, scope, loopDepth := 0, callDepth := m.callDepth + 1 }

/-- The machine after a call that began in another. -/
def Machine.leaveCall (m' m : Machine) : Machine :=
  { m' with scope := m.scope, loopDepth := m.loopDepth, callDepth := m'.callDepth - 1 }

theorem Run.inCallFrame_eq (act : Run α) (m : Machine) (closure : Scope) (params : List String)
    (args : List Value) :
    (Run.update (callFrame · closure params args) >>= (Run.inCall · act)) m =
      match act (m.enterCall closure params args) with
      | .ok a m' => .ok a (m'.leaveCall m)
      | .error stop m' => .error stop (m'.leaveCall m) := rfl

section Calls

variable (law : C.Lawful)

include law

theorem Builtin.meets_call (which : Builtin) (args : List Value) :
    (which.call args).Meets C [] false := by
  cases which with
  | log | warn | error => exact bind law (record law _ _) fun _ => pure law _
  | typeof | parseInt | parseFloat | fromCharCode => exact pure law _

/-- The parameters are names of the new frame. -/
theorem change_bindParams (s : Scope) : ∀ (params : List String) (args : List Value) (h : Heap),
    C.change s.frame params h (bindParams h s params args) := by
  intro params
  induction params with
  | nil => intro args h; exact law.refl _ _ _
  | cons param params ih =>
    intro args h
    have hfirst := law.bind h s param (args.headD .null) true
    exact law.trans (law.mono (by simp) hfirst) (law.mono (by simp) (ih args.tail _))

omit law in
theorem functions_bindParams (s : Scope) : ∀ (params : List String) (args : List Value) (h : Heap),
    (bindParams h s params args).functions = h.functions := by
  intro params
  induction params with
  | nil => intro args h; rfl
  | cons param params ih => intro args h; exact ih args.tail _

theorem meets_runBody {d : FunctionDef} (h : C.Serves r (.function d)) :
    ∃ names, (runBody r d.body).Meets C names true := by
  obtain ⟨name, params, body, position⟩ := d
  cases body with
  | block stmts =>
    have hstmts : ∀ s ∈ stmts, (r.stmt s).Meets C s.declared true :=
      fun s hs => h.stmtChild (by simpa using hs)
    exact ⟨_, bind law (meets_runStmts_declared law hstmts _) fun _ => pure law _⟩
  | expr value => exact ⟨[], h.exprChild (by simp)⟩

omit law in
theorem holds_enterCall {mayStop : Nat → Nat → Prop} {m : Machine} (hm : C.Holds m)
    (closure : Scope) (params : List String) (args : List Value) :
    (C.stoppingWhen mayStop).Holds (m.enterCall closure params args) := by
  have hfunctions : (m.enterCall closure params args).heap.functions = m.heap.functions :=
    functions_bindParams _ params args _
  intro f hf
  rw [hfunctions] at hf
  exact hm f hf

/-- What a body does in the frame of its call, seen from outside of the call. -/
theorem reaches_leaveCall {mayStop : Nat → Nat → Prop} {names : List String} {m m' : Machine}
    {closure : Scope} {params : List String} {args : List Value}
    (h : (C.stoppingWhen mayStop).Reaches names (m.enterCall closure params args) m') :
    C.Reaches [] m (m'.leaveCall m) := by
  obtain ⟨holds, registers, limit, change⟩ := h
  have hparams := change_bindParams law (m.heap.childScope closure).1 params args
    (m.heap.childScope closure).2
  have hframe : C.change (m.heap.childScope closure).1.frame (params ++ names)
      (m.heap.childScope closure).2 m'.heap :=
    law.trans (law.mono (by simp) hparams) (law.mono (by simp) change)
  simp only [Machine.registers, Registers.mk.injEq] at registers
  refine ⟨holds, ?_, limit, law.child hframe⟩
  simp only [Machine.registers, Machine.leaveCall, Machine.enterCall, registers,
    Nat.add_sub_cancel]

/-- A function is called in a frame of its own and with one more call open, which is where its body
may need more fuel than there is. -/
theorem meets_callUser {mayStop : Nat → Nat → Prop} {d : FunctionDef} {names : List String}
    (hbody : (runBody r d.body).Meets (C.stoppingWhen mayStop) names true)
    (hstop : ∀ calls limit, calls < limit → mayStop (calls + 1) limit → C.mayStop calls limit)
    (closure : Scope) (args : List Value) : (callUser r d closure args).Meets C [] false := by
  refine bind law (report law _ _) fun _ => ?_
  intro m hm
  have hend := hbody _ (holds_enterCall hm closure d.params args)
  show C.Allows [] false m ((if decide (m.maxCallDepth ≤ m.callDepth) = true then
    Run.fail 0 .callStackOverflow else _) m)
  split
  · exact failUnlocated law _ m hm
  · next hcalls =>
    rw [decide_eq_true_eq, Nat.not_le] at hcalls
    show C.Allows [] false m ((Run.update (callFrame · closure d.params args) >>=
      (Run.inCall · (runBody r d.body))) m)
    rw [Run.inCallFrame_eq]
    cases hact : runBody r d.body (m.enterCall closure d.params args) with
    | ok v m' => rw [hact] at hend; exact reaches_leaveCall law hend
    | error stop m' =>
      rw [hact] at hend
      refine ⟨reaches_leaveCall law hend.1, ?_⟩
      cases stop with
      | failure f => exact .inr (Locates.line hend.2)
      | outOfFuel => exact hstop _ _ hcalls hend.2

theorem meets_callValue (host : Host)
    (hcall : (∀ calls limit, C.mayStop calls limit) →
      ∀ callee args, (r.call callee args).Meets C [] false)
    (huser : ∀ d closure args, C.function (.user d closure) →
      (callUser r d closure args).Meets C [] false) (callee : Value) (args : List Value) :
    (callValue host r callee args).Meets C [] false := by
  unfold callValue
  split
  · refine function_bind _ (failUnlocated law _) fun f hf => ?_
    cases f with
    | user d closure => exact huser d closure args hf
    | builtin which => exact Builtin.meets_call law _ _
    | bound method receiver => exact Method.meets_call law hf hcall args
    | host name service => exact absurd hf (law.noHost name service)
  · exact failUnlocated law _

end Calls

/-! ## The knot -/

/-- If fuel is no matter, every node that is admitted keeps the contract when it is evaluated, and
so does every call. -/
theorem evaluator_meets (law : C.Lawful) (host : Host)
    (hstop : ∀ calls limit, C.mayStop calls limit)
    (huser : ∀ {d closure}, C.function (.user d closure) → (Node.function d).Everywhere C.Admits) :
    ∀ fuel,
      (∀ {e}, (Node.expr e).Everywhere C.Admits →
        ((evaluator host fuel).expr e).Meets C [] true) ∧
      (∀ {s}, (Node.stmt s).Everywhere C.Admits →
        ((evaluator host fuel).stmt s).Meets C s.declared true) ∧
      (∀ callee args, ((evaluator host fuel).call callee args).Meets C [] false) := by
  intro fuel
  induction fuel with
  | zero => exact ⟨fun _ => outOfFuel law hstop, fun _ => outOfFuel law hstop,
      fun _ _ => outOfFuel law hstop⟩
  | succ fuel ih =>
    obtain ⟨hexpr, hstmt, hcall⟩ := ih
    have hserves {n : Node} (hn : n.Everywhere C.Admits) : C.Serves (evaluator host fuel) n :=
      ⟨hn, fun he => hexpr (hn.below he), fun hs => hstmt (hn.below hs), hcall⟩
    refine ⟨fun he => meets_evalExpr law (hserves he), fun hs => meets_execStmt law (hserves hs),
      meets_callValue law host (fun _ => hcall) fun d closure args hf => ?_⟩
    obtain ⟨names, hbody⟩ := meets_runBody law (hserves (huser hf))
    have hbody : (runBody (evaluator host fuel) d.body).Meets
        (C.stoppingWhen C.mayStop) names true := hbody
    exact meets_callUser law hbody (fun calls limit _ _ => hstop calls limit) closure args

end Quill
