import Quill.Eval

/-!
# What an assignment refuses

An assignment can find that it has nowhere to put the value: the target may be of a form that cannot
be written, and behind a target with an index may be a value that is neither an array nor an object.
`evaluatorBy` is the evaluator in which these refusals are left open: a function tells with what each
of them stops. With the failure that the language has for them it is the evaluator itself, and with
other ones it tells which refusals there are in a run.
-/

set_option autoImplicit false

namespace Quill

/-- What an assignment does not take. -/
inductive Refusal
  /-- A target with an index, for the value that is indexed. -/
  | container (v : Value)
  /-- A target that cannot be written. -/
  | target (e : Expr)

/-- With what an assignment at a line stops. -/
abbrev Refuse := Refusal → Nat → Stop

/-- The failure of the language. -/
def Refuse.standard : Refuse := fun _ line => .failure ⟨line, .invalidAssignmentTarget⟩

/-- Arrays and objects have parts that can be written. -/
def Value.isContainer : Value → Bool
  | .array _ | .object _ => true
  | _ => false

/-! ## The evaluator with its refusals left open -/

/-- Sets the part of a container under a key. -/
def storePartBy (refuse : Refuse) (line : Nat) (container key value : Value) : Run Unit :=
  if container.isContainer then Run.store line (·.indexSlot container key) value
  else throw (refuse (.container container) line)

def assignToBy (refuse : Refuse) (r : Eval) (line : Nat) (value : Value) : Expr → Run Unit
  | .ident name _ => Run.assignVariable line name value
  | .member object name _ _ => do
    let container ← r.expr object
    Run.write (·.writeMember container name value)
  | .index object index _ => do
    let container ← r.expr object
    let key ← r.expr index
    storePartBy refuse line container key value
  | e => throw (refuse (.target e) line)

/-- Evaluates the parts of the target of a compound assignment. -/
def resolvePlaceBy (refuse : Refuse) (r : Eval) (line : Nat) (target : Expr) : Run Place := do
  match target with
  | .ident name _ => return .var name
  | .member object name false _ => return .member (← r.expr object) name
  | .index object index _ =>
    let container ← r.expr object
    let key ← r.expr index
    if container.isContainer then return .index container key
    else throw (refuse (.container container) line)
  | e => throw (refuse (.target e) line)

def evalCompoundBy (refuse : Refuse) (r : Eval) (op : BinaryOp) (target value : Expr) (line : Nat) :
    Run Value := do
  let place ← resolvePlaceBy refuse r line target
  let current ← loadPlace line place
  let operand ← r.expr value
  let result ← Run.read (·.binary op current operand)
  storePlace line result place
  return result

def evalExprBy (refuse : Refuse) (r : Eval) : Expr → Run Value
  | .assign target value position => do
    let v ← r.expr value
    assignToBy refuse r position.line v target
    return v
  | .compound op target value position => evalCompoundBy refuse r op target value position.line
  | e => evalExpr r e

/-- The evaluator in which assignments refuse as told. -/
def evaluatorBy (refuse : Refuse) (host : Host) : Nat → Eval
  | 0 => evaluator host 0
  | fuel + 1 =>
    { fuel
      expr := fun e => evalExprBy refuse (evaluatorBy refuse host fuel) e
      stmt := fun s => execStmt (evaluatorBy refuse host fuel) s
      call := fun f args => callValue host (evaluatorBy refuse host fuel) f args }

/-! ## The failure of the language -/

section Standard

variable {refuse : Refuse} {r : Eval} {line : Nat}

theorem storePartBy_standard (container key value : Value) :
    storePartBy .standard line container key value =
      Run.store line (·.indexSlot container key) value := by
  cases container <;> rfl

theorem assignToBy_standard (value : Value) (target : Expr) :
    assignToBy .standard r line value target = assignTo r line value target := by
  cases target with
  | index object index position =>
    simp only [assignToBy, assignTo, storePartBy_standard]
  | _ => rfl

theorem resolvePlaceBy_standard (target : Expr) :
    resolvePlaceBy .standard r line target =
      resolvePlace r .invalidAssignmentTarget line target := by
  cases target with
  | member object name optional position => cases optional <;> rfl
  | index object index position =>
    refine bind_congr fun container => bind_congr fun key => ?_
    cases container <;> rfl
  | _ => rfl

theorem evalExprBy_standard (e : Expr) : evalExprBy .standard r e = evalExpr r e := by
  cases e with
  | assign target value position => simp only [evalExprBy, evalExpr, assignToBy_standard]
  | compound op target value position =>
    simp only [evalExprBy, evalExpr, evalCompoundBy, evalCompound, resolvePlaceBy_standard]
  | _ => rfl

theorem evaluatorBy_standard (host : Host) (fuel : Nat) :
    evaluatorBy .standard host fuel = evaluator host fuel := by
  induction fuel with
  | zero => rfl
  | succ fuel ih => simp only [evaluatorBy, evaluator, ih, evalExprBy_standard]

end Standard

end Quill
