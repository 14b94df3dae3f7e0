import Quill.Proofs.Contract.Programs

/-!
# Recursion comes to an end

Only some parts of a script can go on for ever by themselves: the loops with a condition, and the
methods that walk over an array while others may change it. A script without them ends, whatever its
functions call. Its calls are bounded by the machine, a `for` over a container has its values before
the first pass, and everything else goes down in the tree. So the measure is how many more calls may
be opened, and then the size of the node; it is counted in fuel.
-/

set_option autoImplicit false

namespace Quill

open Run.Meets Contract

/-! ## Scripts that only recurse -/

/-- The names of the methods that walk over arrays or into them. -/
def walkingMethods : List String :=
  ["flat", "flatMap", "forEach", "map", "filter", "find", "findIndex", "some", "every", "reduce"]

/-- The node does not go on for ever by itself. -/
structure Node.Bounded (n : Node) : Prop where
  repeats : n.repeats = false
  memberName : ∀ name ∈ n.memberName?, name ∉ walkingMethods

instance : DecidablePred Node.Bounded := fun n =>
  decidable_of_iff (n.repeats = false ∧ ∀ name ∈ n.memberName?, name ∉ walkingMethods)
    ⟨fun h => ⟨h.1, h.2⟩, fun h => ⟨h.repeats, h.memberName⟩⟩

theorem ArrayMethod.name_mem_walkingMethods {method : ArrayMethod}
    (h : method.takesCallback = true) : method.name ∈ walkingMethods := by
  cases method with
  | flatMap | forEach | map | filter | find | findIndex | someOf | every | reduce => decide
  | _ => cases h

theorem ArrayMethod.name_eq_of_lookup {receiver : Value} {name : String} {method : ArrayMethod}
    (h : MethodTable.standard.lookup? receiver name = some (.ofArray method)) :
    method.name = name := by
  cases receiver with
  | array a =>
    obtain ⟨found, hfound, heq⟩ := Option.map_eq_some_iff.mp h
    cases heq
    simpa using List.find?_some hfound
  | string s =>
    obtain ⟨found, -, heq⟩ := Option.map_eq_some_iff.mp h
    cases heq
  | _ => cases h

/-- The node is bounded, and no larger than a size. -/
structure Node.Fits (size : Nat) (n : Node) : Prop where
  bounded : n.Bounded
  size_le : n.size ≤ size

theorem Node.Everywhere.fits {n : Node} {size : Nat} (h : n.Everywhere Bounded)
    (hsize : n.size ≤ size) : n.Everywhere (Fits size) :=
  ⟨⟨h.here, hsize⟩, fun c hc => ⟨h.2 c hc, Nat.le_trans (Nat.le_of_lt hc.size_lt) hsize⟩⟩

theorem Node.size_pos (n : Node) : 0 < n.size := by
  cases n with
  | expr e => cases e <;> simp +arith [size]
  | stmt s => cases s <;> simp +arith [size]
  | function d => cases d; simp +arith [size]

/-! ## The measure -/

/-- Every function in the heap is one of a bounded script, no larger than a size. -/
def recursionContract (size : Nat) (mayStop : Nat → Nat → Prop) : Contract where
  function
    | .user d _ => (Node.function d).Everywhere (Node.Fits size)
    | .builtin _ | .bound (.ofString _) _ => True
    | .bound (.ofArray method) _ => method.takesCallback = false
    | .host _ _ => False
  change _ _ _ _ := True
  line _ := True
  mayStop := mayStop

/-- Fuel for a call while so many more may be opened. -/
def callFuel (size : Nat) (calls : Nat) : Nat := 1 + calls * size

theorem callFuel_succ (size calls : Nat) :
    callFuel size (calls + 1) = size + callFuel size calls := by
  unfold callFuel
  rw [Nat.succ_mul]
  omega

/-- The fuel does not reach for a node of a size and for the calls that may still be opened. -/
def TooLittle (size need fuel calls limit : Nat) : Prop :=
  fuel < need + callFuel size (limit - calls)

theorem tooLittle_zero (size need calls limit : Nat) : TooLittle size need 0 calls limit := by
  unfold TooLittle callFuel
  omega

variable {size fuel : Nat}

/-- Of what is larger the parts are given less fuel. -/
theorem TooLittle.succ {need need' calls limit : Nat} (h : TooLittle size need fuel calls limit)
    (hneed : need < need') : TooLittle size need' (fuel + 1) calls limit := by
  unfold TooLittle at h ⊢
  omega

/-- A call that is opened leaves one less to be opened, and a function to be run. -/
theorem TooLittle.of_call {need calls limit : Nat}
    (h : TooLittle size need fuel (calls + 1) limit) (hneed : need ≤ size)
    (hcalls : calls < limit) : TooLittle size 0 fuel calls limit := by
  have hleft : limit - calls = limit - (calls + 1) + 1 := by omega
  unfold TooLittle at h ⊢
  rw [hleft, callFuel_succ]
  omega

/-- A call that may not be opened ends with any fuel. -/
theorem not_tooLittle_succ : ¬TooLittle size 0 (fuel + 1) 0 0 := by
  simp [TooLittle, callFuel]

variable {mayStop : Nat → Nat → Prop}

theorem recursionContract_lawful : (recursionContract size mayStop).Lawful := by
  refine .of_change (fun _ _ _ _ => trivial) (fun _ _ h => h) fun hfunction hback => ?_
  rw [hfunction] at hback
  cases hback

theorem recursionContract_admits {n : Node} (h : n.Everywhere (Node.Fits size)) :
    (recursionContract size mayStop).Admits n where
  line := trivial
  method {name receiver method} hname hlookup := by
    cases method with
    | ofString method => trivial
    | ofArray method =>
      have hmember := h.here.bounded.memberName name hname
      rw [← ArrayMethod.name_eq_of_lookup hlookup] at hmember
      cases hback : method.takesCallback with
      | false => exact hback
      | true => exact absurd (ArrayMethod.name_mem_walkingMethods hback) hmember
  function {d} hd scope := by
    subst hd
    exact h
  repeats hrepeats := nomatch hrepeats.symm.trans h.here.bounded.repeats

/-- More may stop if less is needed or more fuel is there. -/
theorem Run.Meets.recursion_mono {α : Type} {names : List String} {located : Bool} {act : Run α}
    {mayStop' : Nat → Nat → Prop} (h : act.Meets (recursionContract size mayStop) names located)
    (hstop : ∀ calls limit, mayStop calls limit → mayStop' calls limit) :
    act.Meets (recursionContract size mayStop') names located :=
  of_stoppingWhen (C := recursionContract size mayStop') h hstop

/-- With less fuel than the measure says evaluation may stop, and only then. -/
structure Eval.Lasts (r : Eval) (size fuel : Nat) : Prop where
  expr : ∀ {e}, (Node.expr e).Everywhere (Node.Fits size) →
    (r.expr e).Meets (recursionContract size (TooLittle size (Node.expr e).size fuel)) [] true
  stmt : ∀ {s}, (Node.stmt s).Everywhere (Node.Fits size) →
    (r.stmt s).Meets
      (recursionContract size (TooLittle size (Node.stmt s).size fuel)) s.declared true
  call : ∀ callee args,
    (r.call callee args).Meets (recursionContract size (TooLittle size 0 fuel)) [] false

namespace Eval.Lasts

variable {r : Eval}

/-- What is below a node is smaller, and a call needs nothing for a node. -/
theorem serves (hr : r.Lasts size fuel) {n : Node} (hn : n.Everywhere (Node.Fits size)) :
    (recursionContract size (TooLittle size n.size (fuel + 1))).Serves r n where
  admits := hn.imp fun _ => recursionContract_admits
  expr he := (hr.expr (hn.below he)).recursion_mono fun _ _ hstop => hstop.succ he.size_lt
  stmt hs := (hr.stmt (hn.below hs)).recursion_mono fun _ _ hstop => hstop.succ hs.size_lt
  call callee args := (hr.call callee args).recursion_mono fun _ _ hstop => hstop.succ n.size_pos

theorem callValue (hr : r.Lasts size fuel) (host : Host) (callee : Value) (args : List Value) :
    (callValue host r callee args).Meets
      (recursionContract size (TooLittle size 0 (fuel + 1))) [] false := by
  refine meets_callValue recursionContract_lawful host (fun hstop => ?_)
    (fun d closure args hd => ?_) callee args
  · exact absurd (hstop 0 0) not_tooLittle_succ
  · obtain ⟨names, hbody⟩ := meets_runBody recursionContract_lawful (hr.serves hd)
    have hstop (calls limit : Nat) (hcalls : calls < limit)
        (hbody : TooLittle size (Node.function d).size (fuel + 1) (calls + 1) limit) :
        TooLittle size 0 (fuel + 1) calls limit :=
      hbody.of_call hd.here.size_le hcalls
    exact meets_callUser recursionContract_lawful hbody hstop closure args

end Eval.Lasts

theorem evaluator_lasts (host : Host) (size : Nat) :
    ∀ fuel, (evaluator host fuel).Lasts size fuel := by
  intro fuel
  induction fuel with
  | zero =>
    have law {need : Nat} : (recursionContract size (TooLittle size need 0)).Lawful :=
      recursionContract_lawful
    constructor
    case expr => exact fun _ => outOfFuel law (tooLittle_zero _ _)
    case stmt => exact fun _ => outOfFuel law (tooLittle_zero _ _)
    case call => exact fun _ _ => outOfFuel law (tooLittle_zero _ _)
  | succ fuel ih =>
    constructor
    case expr => exact fun he => meets_evalExpr recursionContract_lawful (ih.serves he)
    case stmt => exact fun hs => meets_execStmt recursionContract_lawful (ih.serves hs)
    case call => exact ih.callValue host

/-! ## Every such script -/

/-- A program of bounded nodes ends on a new machine, however many calls may be open: there is an
amount of fuel from which on it has a value or fails. -/
theorem recursion_ends (host : Host) (depth : Nat) {program : List Stmt}
    (hprogram : ∀ s ∈ program, (Node.stmt s).Everywhere Node.Bounded) :
    ∃ fuel, ∀ more, fuel ≤ more →
      let outcome := ((Machine.new.limitCalls depth).run (execute (evaluator host more) program)).1
      (∃ v, outcome = .value v) ∨ (∃ f, outcome = .failed f) := by
  let size := sizeOf program
  refine ⟨size + callFuel size depth, fun more hmore => ?_⟩
  have hstmts : ∀ s ∈ program, ((evaluator host more).stmt s).Meets
      (recursionContract size (TooLittle size size more)) s.declared true := by
    intro s hs
    have hsize : (Node.stmt s).size < size := List.sizeOf_lt_of_mem hs
    have hfits := (hprogram s hs).fits (Nat.le_of_lt hsize)
    refine ((evaluator_lasts host size more).stmt hfits).recursion_mono fun calls limit hstop => ?_
    unfold TooLittle at hstop ⊢
    omega
  intro outcome
  have hend : (recursionContract size (TooLittle size size more)).AllowsOutcome depth outcome :=
    recursionContract_lawful.outcome (fun _ => trivial) depth hstmts
  clear_value outcome
  cases hend with
  | value v => exact .inl ⟨v, rfl⟩
  | failed => exact .inr ⟨_, rfl⟩
  | outOfFuel hstop =>
    have hstop : more < size + callFuel size depth := hstop
    omega

/-- `let xs = [1]; for (let x of xs) { xs.push(x) } function f(g) { return g(g) } f(f)`: a loop over
an array that it makes longer, and a function that calls itself by another name. -/
def growAndRecurse : List Stmt :=
  let p : Position := .start
  let push : Expr := .call (.member (.ident "xs" p) "push" false p) [.ident "x" p] p
  let again : Expr := .call (.ident "g" p) [.ident "g" p] p
  [.declare "xs" false (some (.array [.number .one p] p)) p,
    .forEach "x" false .elements (.ident "xs" p) (.block [.expr push] p) p,
    .function
      { name := some "f", params := ["g"], body := .block [.ret (some again) p], position := p },
    .expr (.call (.ident "f" p) [.ident "f" p] p)]

theorem growAndRecurse_ends :
    (∀ s ∈ growAndRecurse, (Node.stmt s).Everywhere Node.Bounded) ∧
    ((Machine.new.limitCalls 5).run (execute (evaluator smallHost 100) growAndRecurse)).1 =
      .failed ⟨1, .callStackOverflow⟩ ∧
    ∃ fuel, ∀ more, fuel ≤ more →
      let outcome :=
        ((Machine.new.limitCalls 5).run (execute (evaluator smallHost more) growAndRecurse)).1
      (∃ v, outcome = .value v) ∨ (∃ f, outcome = .failed f) := by
  have hbounded : ∀ s ∈ growAndRecurse, (Node.stmt s).Everywhere Node.Bounded := by
    intro s hs
    have hcheck : ∀ s ∈ growAndRecurse, Node.holdsWithin Node.Bounded 10 (.stmt s) = true := by
      unfold growAndRecurse
      decide
    exact .of_holdsWithin (hcheck s hs)
  exact ⟨hbounded, by decide +kernel, recursion_ends smallHost 5 hbounded⟩

end Quill
