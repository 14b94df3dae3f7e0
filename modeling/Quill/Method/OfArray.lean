import Quill.Eval.Element
import Quill.Method.OfString

/-!
# Methods of arrays

Methods that change the array, methods that make new ones, and methods that call a function for
every element. The last read the array anew at every step, so the function may change it under way;
they go on as long as there is an element at the next position.
-/

set_option autoImplicit false

namespace Quill

/-- A bound of a slice: counted from the end when negative, and held inside the array. -/
def sliceBound (length : Nat) (i : Int) : Nat :=
  if i < 0 then ((length : Int) + i).toNat else min i.toNat length

/-- The elements between two bounds. -/
def sliceOf (items : Array Value) (start stop : Int) : Array Value :=
  items.extract (sliceBound items.size start) (sliceBound items.size stop)

/-- The elements with arrays among them replaced by their elements, down to a depth. -/
def flatten (h : Heap) : Nat → List Value → List Value
  | 0, items => items
  | depth + 1, items =>
    items.flatMap fun item =>
      match item with
      | .array a => flatten h depth (h.array a).toList
      | other => [other]

/-- The elements of an array, or a value that is no array by itself. -/
def spread (h : Heap) : Value → Array Value
  | .array a => h.array a
  | v => #[v]

/-! ## Calling a function for every element -/

/-- The function among the arguments of a method. -/
def callback (method : ArrayMethod) (args : List Value) : Run Value :=
  match argument args 0 with
  | .function f => pure (.function f)
  | _ => Run.fail 0 (.callbackRequired method)

/-- What follows a call: the next element, or the end. -/
inductive Visit (σ τ : Type)
  | next (state : σ)
  | finish (result : τ)

/-- Calls `f` with element, position and array for each element from position `i` on, and lets
`visit` decide from element, position and answer how to go on. Ends in a state at the end of the
array, or in a result before. -/
def visitFrom {σ τ : Type} (r : Eval) (a : ArrayRef) (f : Value)
    (visit : σ → Value → Nat → Value → Run (Visit σ τ)) : Nat → Nat → σ → Run (Visit σ τ)
  | 0, _, _ => Run.outOfFuel
  | fuel + 1, i, state => do
    match ← Run.read fun h => (h.array a)[i]? with
    | none => return .next state
    | some item =>
      let answer ← r.call f [item, .ofNat i, .array a]
      match ← visit state item i answer with
      | .next state => visitFrom r a f visit fuel (i + 1) state
      | .finish result => return .finish result

/-- Calls `f` for each element. -/
def visitAll (r : Eval) (a : ArrayRef) (f : Value) : Run Value := do
  let step (_ : Unit) (_ : Value) (_ : Nat) (_ : Value) : Run (Visit Unit Empty) :=
    return .next ()
  let _ ← visitFrom r a f step r.fuel 0 ()
  return .null

/-- Calls `f` for each element and collects what `visit` makes of element and answer. -/
def collect (r : Eval) (a : ArrayRef) (f : Value) (visit : Value → Value → Heap → Array Value) :
    Run Value := do
  let step (out : Array Value) (item : Value) (_ : Nat) (answer : Value) :
      Run (Visit (Array Value) Empty) := do
    let more ← Run.read (visit item answer)
    return .next (out ++ more)
  match ← visitFrom r a f step r.fuel 0 #[] with
  | .next out => Run.allocArray out

/-- The first element and its position for which the answer of `f` is as wanted. -/
def search (r : Eval) (a : ArrayRef) (f : Value) (wanted : Bool) : Run (Option (Value × Nat)) := do
  let step (_ : Unit) (item : Value) (i : Nat) (answer : Value) :
      Run (Visit Unit (Value × Nat)) :=
    return if answer.toBool == wanted then .finish (item, i) else .next ()
  match ← visitFrom r a f step r.fuel 0 () with
  | .next _ => return none
  | .finish hit => return some hit

/-- Folds `f` over the elements from position `i` on. -/
def foldFrom (r : Eval) (a : ArrayRef) (f : Value) : Nat → Nat → Value → Run Value
  | 0, _, _ => Run.outOfFuel
  | fuel + 1, i, acc => do
    match ← Run.read fun h => (h.array a)[i]? with
    | none => return acc
    | some item =>
      let acc ← r.call f [acc, item, .ofNat i, .array a]
      foldFrom r a f fuel (i + 1) acc

/-- Folds `f` over the elements. Without an initial value, null being none, the first element is it. -/
def foldElements (r : Eval) (a : ArrayRef) (f : Value) (initial : Value) : Run Value := do
  if initial.isNull then
    match ← Run.read fun h => (h.array a)[0]? with
    | some first => foldFrom r a f r.fuel 1 first
    | none => Run.fail 0 .emptyReduce
  else foldFrom r a f r.fuel 0 initial

/-! ## The methods -/

/-- Changes the elements of an array and delivers something. -/
def changeArray {α : Type} (a : ArrayRef) (answer : Array Value → α)
    (change : Array Value → Array Value) : Run α := do
  let result ← Run.read fun h => answer (h.array a)
  Run.write (·.modifyArray a change)
  return result

/-- Calls a method of an array. -/
def ArrayMethod.call (r : Eval) (method : ArrayMethod) (a : ArrayRef) (args : List Value) :
    Run Value := do
  match method with
  | .push => changeArray a (fun items => .ofNat (items.size + args.length)) (· ++ args)
  | .pop => changeArray a (fun items => items.back?.getD .null) Array.pop
  | .shift => changeArray a (fun items => items[0]?.getD .null) fun items => items.extract 1
  | .unshift =>
    changeArray a (fun items => .ofNat (items.size + args.length)) fun items => args.toArray ++ items
  | .reverse => changeArray a (fun _ => .array a) Array.reverse
  | .indexOf =>
    return positionValue <|
      ← Run.read fun h => (h.array a).findIdx? fun item => h.equal item (argument args 0)
  | .includes =>
    return .bool <| ← Run.read fun h => (h.array a).any fun item => h.equal item (argument args 0)
  | .slice =>
    let items ← Run.read (·.array a)
    Run.allocArray
      (sliceOf items (argument args 0).toIndex (boundOr items.size (argument args 1)))
  | .concat =>
    let items ← Run.read fun h => args.foldl (fun out v => out ++ spread h v) (h.array a)
    Run.allocArray items
  | .join =>
    let separator := match argument args 0 with
      | .null => ","
      | v => v.toText
    let items ← Run.read (·.array a)
    return .string (separator.intercalate (items.toList.map Value.toText))
  | .flat =>
    let depth := (boundOr 1 (argument args 0)).toNat
    let items ← Run.read fun h => flatten h depth (h.array a).toList
    Run.allocArray items.toArray
  | .flatMap => collect r a (← callback method args) fun _ answer h => spread h answer
  | .forEach => visitAll r a (← callback method args)
  | .map => collect r a (← callback method args) fun _ answer _ => #[answer]
  | .filter =>
    collect r a (← callback method args) fun item answer _ => if answer.toBool then #[item] else #[]
  | .find => return ((← search r a (← callback method args) true).map (·.1)).getD .null
  | .findIndex => return positionValue ((← search r a (← callback method args) true).map (·.2))
  | .someOf => return .bool (← search r a (← callback method args) true).isSome
  | .every => return .bool (← search r a (← callback method args) false).isNone
  | .reduce => foldElements r a (← callback method args) (argument args 1)

/-- Calls a method. On a value of the wrong kind it gives null. -/
def Method.call (r : Eval) (method : Method) (receiver : Value) (args : List Value) : Run Value :=
  match method, receiver with
  | .ofString m, .string s => m.call s args
  | .ofArray m, .array a => m.call r a args
  | _, _ => pure .null

end Quill
