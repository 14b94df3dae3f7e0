import Quill.Eval.Element
import Quill.Eval.Operator
import Quill.Method.OfArray

/-!
# Expressions

The value of one expression, given the values of its parts. Parts are evaluated from left to right;
an assignment evaluates its value first and then its target.
-/

set_option autoImplicit false

namespace Quill

namespace Run

/-- The scope at work. -/
def scope : Run Scope := fun m => .ok m.scope m

/-- The value of a variable, which has to be bound. -/
def readVariable (line : Nat) (name : String) : Run Value := fun m =>
  match m.heap.lookup? m.scope name with
  | some value => .ok value m
  | none => .error (.failure ⟨line, .unboundVariable name⟩) m

/-- Changes the value of a variable. -/
def assignVariable (line : Nat) (name : String) (value : Value) : Run Unit := do
  let scope ← Run.scope
  store line (·.variableSlot scope name) value

/-- A function value for a definition, which closes over the scope at work. -/
def closure (d : FunctionDef) : Run Value := do
  allocFunction (.user d (← Run.scope))

/-- A property, field or method of a value; null if it has none of that name. A method becomes a
function of its own every time it is read. -/
def member (receiver : Value) (name : String) : Run Value := do
  match receiver with
  | .object o => return (← read fun h => (h.object o).get? name).getD .null
  | _ =>
    match ← read (·.field? receiver name) with
    | some value => return value
    | none =>
      match MethodTable.standard.lookup? receiver name with
      | some method => allocFunction (.bound method receiver)
      | none => return .null

end Run

/-! ## Parts in order -/

/-- The values of expressions, from left to right. -/
def evalAll (r : Eval) (done : Array Value) : List Expr → Run (Array Value)
  | [] => return done
  | e :: rest => do
    let value ← r.expr e
    evalAll r (done.push value) rest

/-- The entries of an object literal. A key that is repeated takes the later value. -/
def evalEntries (r : Eval) (done : Dict Value) : List (String × Expr) → Run (Dict Value)
  | [] => return done
  | (key, e) :: rest => do
    let value ← r.expr e
    evalEntries r (done.set key value) rest

/-! ## Calls -/

/-- A call. A method is called on its receiver directly, and `?.` on null skips the arguments too. -/
def evalCall (r : Eval) (callee : Expr) (args : List Expr) (line : Nat) : Run Value := do
  match callee with
  | .member object name optional _ =>
    let receiver ← r.expr object
    if optional && receiver.isNull then return .null
    else
      let args := (← evalAll r #[] args).toList
      match MethodTable.standard.lookup? receiver name with
      | some method => Run.atLine line (method.call r receiver args)
      | none =>
        let f ← Run.member receiver name
        Run.atLine line (r.call f args)
  | _ =>
    let f ← r.expr callee
    let args := (← evalAll r #[] args).toList
    Run.atLine line (r.call f args)

/-! ## Assignment -/

/-- A place that can be read and written, its parts evaluated. -/
inductive Place
  | var (name : String)
  | member (object : Value) (name : String)
  | index (container key : Value)

/-- Evaluates the parts of a target once. `invalid` is the failure for what cannot be written. -/
def resolvePlace (r : Eval) (invalid : FailureKind) (line : Nat) (target : Expr) : Run Place := do
  match target with
  | .ident name _ => return .var name
  | .member object name false _ => return .member (← r.expr object) name
  | .index object index _ =>
    let container ← r.expr object
    let key ← r.expr index
    match container with
    | .array _ | .object _ => return .index container key
    | _ => Run.fail line invalid
  | _ => Run.fail line invalid

/-- The value in a place. An array has to have the element. -/
def loadPlace (line : Nat) : Place → Run Value
  | .var name => Run.readVariable line name
  | .member object name => Run.member object name
  | .index (.array a) key => do
    let items ← Run.read (·.array a)
    match key.toPosition?.bind fun i => items[i]? with
    | some value => return value
    | none => Run.fail line (.indexOutOfBounds key.toIndex items.size)
  | .index container key => Run.read (·.readIndex container key)

/-- Writes a value to a place. -/
def storePlace (line : Nat) (value : Value) : Place → Run Unit
  | .var name => Run.assignVariable line name value
  | .member object name => Run.write (·.writeMember object name value)
  | .index container key => Run.store line (·.indexSlot container key) value

/-- Writes a value to a target, whose parts are evaluated now. -/
def assignTo (r : Eval) (line : Nat) (value : Value) : Expr → Run Unit
  | .ident name _ => Run.assignVariable line name value
  | .member object name _ _ => do
    let container ← r.expr object
    Run.write (·.writeMember container name value)
  | .index object index _ => do
    let container ← r.expr object
    let key ← r.expr index
    Run.store line (·.indexSlot container key) value
  | _ => Run.fail line .invalidAssignmentTarget

/-- Adds or takes away one. The value is the new number, or the old one when the operator stands
behind its operand. -/
def evalUpdate (r : Eval) (op : UpdateOp) (before : Bool) (target : Expr) (line : Nat) :
    Run Value := do
  let place ← resolvePlace r (.invalidUpdateOperand op) line target
  let old := (← loadPlace line place).toNumber
  let new := match op with
    | .increment => old + Number.one
    | .decrement => old - Number.one
  storePlace line (.number new) place
  return .number (if before then new else old)

/-- Reads a place, computes with it and writes it back. The place is read before the operand is
evaluated. -/
def evalCompound (r : Eval) (op : BinaryOp) (target value : Expr) (line : Nat) : Run Value := do
  let place ← resolvePlace r .invalidAssignmentTarget line target
  let current ← loadPlace line place
  let operand ← r.expr value
  let result ← Run.read (·.binary op current operand)
  storePlace line result place
  return result

/-! ## All expressions -/

/-- The value of an expression. -/
def evalExpr (r : Eval) : Expr → Run Value
  | .number n _ => return .number n
  | .string s _ => return .string s
  | .bool b _ => return .bool b
  | .null _ => return .null
  | .ident name position => Run.readVariable position.line name
  | .array items _ => do Run.allocArray (← evalAll r #[] items)
  | .object entries _ => do Run.allocObject (← evalEntries r .empty entries)
  | .binary op left right _ => do
    let a ← r.expr left
    let b ← r.expr right
    Run.read (·.binary op a b)
  | .logical .and left right _ => do
    if (← r.expr left).toBool then return .bool (← r.expr right).toBool else return .bool false
  | .logical .or left right _ => do
    let a ← r.expr left
    if a.toBool then return a else r.expr right
  | .unary .neg operand _ => return .number (-(← r.expr operand).toNumber)
  | .unary .not operand _ => return .bool (!(← r.expr operand).toBool)
  | .call callee args position => evalCall r callee args position.line
  | .member object name optional _ => do
    let receiver ← r.expr object
    if optional && receiver.isNull then return .null else Run.member receiver name
  | .index object index _ => do
    let container ← r.expr object
    let key ← r.expr index
    Run.read (·.readIndex container key)
  | .ternary condition whenTrue whenFalse _ => do
    if (← r.expr condition).toBool then r.expr whenTrue else r.expr whenFalse
  | .update op before target position => evalUpdate r op before target position.line
  | .assign target value position => do
    let v ← r.expr value
    assignTo r position.line v target
    return v
  | .compound op target value position => evalCompound r op target value position.line
  | .function d => Run.closure d

end Quill
