import Quill.Eval

/-!
# Erasing positions

Trees without their positions, and what else holds trees: the functions of a heap, and so a machine.
A position is not taken out of a tree, it is put to the same place everywhere, so an erased program
is a program. What a heap holds besides functions is left as it is.

Of a heap, running scripts look at the functions only to call them. Everything else that is done
with a heap ignores them, or leaves them as they are; `Heap.withFunctions` says what that means, and
erasing is the case where the functions put in place are the erased ones. In the same way a change
of a machine can spare its heap.
-/

set_option autoImplicit false

namespace Quill

/-! ## Trees -/

mutual

/-- The expression with every position erased. What follows does the same for the other kinds of
tree. -/
def Expr.erase : Expr → Expr
  | .number value _ => .number value default
  | .string value _ => .string value default
  | .bool value _ => .bool value default
  | .null _ => .null default
  | .ident name _ => .ident name default
  | .array items _ => .array (eraseExprs items) default
  | .object entries _ => .object (eraseEntries entries) default
  | .binary op left right _ => .binary op left.erase right.erase default
  | .logical op left right _ => .logical op left.erase right.erase default
  | .unary op operand _ => .unary op operand.erase default
  | .call callee args _ => .call callee.erase (eraseExprs args) default
  | .member object name optional _ => .member object.erase name optional default
  | .index object index _ => .index object.erase index.erase default
  | .ternary condition whenTrue whenFalse _ =>
    .ternary condition.erase whenTrue.erase whenFalse.erase default
  | .update op before target _ => .update op before target.erase default
  | .assign target value _ => .assign target.erase value.erase default
  | .compound op target value _ => .compound op target.erase value.erase default
  | .function definition => .function definition.erase

def eraseExprs : List Expr → List Expr
  | [] => []
  | e :: es => e.erase :: eraseExprs es

def eraseEntries : List (String × Expr) → List (String × Expr)
  | [] => []
  | (key, value) :: entries => (key, value.erase) :: eraseEntries entries

def eraseExpr? : Option Expr → Option Expr
  | none => none
  | some e => some e.erase

def FunctionDef.erase : FunctionDef → FunctionDef
  | ⟨name, params, body, _⟩ => ⟨name, params, body.erase, default⟩

def FunctionBody.erase : FunctionBody → FunctionBody
  | .block statements => .block (eraseStmts statements)
  | .expr value => .expr value.erase

def Stmt.erase : Stmt → Stmt
  | .expr value => .expr value.erase
  | .declare name constant init _ => .declare name constant (eraseExpr? init) default
  | .ifElse condition whenTrue whenFalse _ =>
    .ifElse condition.erase whenTrue.erase (eraseStmt? whenFalse) default
  | .ret value _ => .ret (eraseExpr? value) default
  | .block statements _ => .block (eraseStmts statements) default
  | .whileLoop condition body _ => .whileLoop condition.erase body.erase default
  | .doWhile body condition _ => .doWhile body.erase condition.erase default
  | .forLoop init condition update body _ =>
    .forLoop (eraseStmt? init) (eraseExpr? condition) (eraseExpr? update) body.erase default
  | .forEach name constant traversal subject body _ =>
    .forEach name constant traversal subject.erase body.erase default
  | .breakLoop _ => .breakLoop default
  | .continueLoop _ => .continueLoop default
  | .tryCatch body handler cleanup _ =>
    .tryCatch (eraseStmts body) (eraseHandler? handler) (eraseStmts? cleanup) default
  | .throw value _ => .throw value.erase default
  | .function definition => .function definition.erase

def eraseStmts : List Stmt → List Stmt
  | [] => []
  | s :: ss => s.erase :: eraseStmts ss

def eraseStmt? : Option Stmt → Option Stmt
  | none => none
  | some s => some s.erase

def eraseStmts? : Option (List Stmt) → Option (List Stmt)
  | none => none
  | some ss => some (eraseStmts ss)

def Handler.erase : Handler → Handler
  | ⟨param, body, _⟩ => ⟨param, eraseStmts body, default⟩

def eraseHandler? : Option Handler → Option Handler
  | none => none
  | some h => some h.erase

end

attribute [simp] Expr.erase FunctionDef.erase FunctionBody.erase Stmt.erase Handler.erase

/-! ## Lists and options of trees -/

theorem eraseExprs_eq_map (es : List Expr) : eraseExprs es = es.map Expr.erase := by
  induction es with
  | nil => rfl
  | cons e es ih => rw [eraseExprs, ih, List.map_cons]

/-- An entry of an object literal, its value without positions. -/
def eraseEntry (entry : String × Expr) : String × Expr := (entry.1, entry.2.erase)

theorem eraseEntries_eq_map (entries : List (String × Expr)) :
    eraseEntries entries = entries.map eraseEntry := by
  induction entries with
  | nil => rfl
  | cons entry entries ih => rw [eraseEntries, ih, List.map_cons, eraseEntry]

theorem eraseStmts_eq_map (stmts : List Stmt) : eraseStmts stmts = stmts.map Stmt.erase := by
  induction stmts with
  | nil => rfl
  | cons s ss ih => rw [eraseStmts, ih, List.map_cons]

theorem eraseExpr?_eq_map (e : Option Expr) : eraseExpr? e = e.map Expr.erase := by
  cases e <;> rfl

theorem eraseStmt?_eq_map (s : Option Stmt) : eraseStmt? s = s.map Stmt.erase := by
  cases s <;> rfl

theorem eraseStmts?_eq_map (ss : Option (List Stmt)) : eraseStmts? ss = ss.map eraseStmts := by
  cases ss <;> rfl

theorem eraseHandler?_eq_map (h : Option Handler) : eraseHandler? h = h.map Handler.erase := by
  cases h <;> rfl

theorem length_eraseStmts (stmts : List Stmt) : (eraseStmts stmts).length = stmts.length := by
  rw [eraseStmts_eq_map, List.length_map]

theorem Expr.isAssignable_erase (e : Expr) : e.erase.isAssignable = e.isAssignable := by
  cases e with
  | member object name optional position => cases optional <;> rfl
  | _ => rfl

theorem FunctionDef.displayName_erase (d : FunctionDef) : d.erase.displayName = d.displayName := by
  cases d
  rfl

/-! ## Heaps -/

/-- What a function value stands for, with the positions in its definition erased. -/
def Function.erase : Function → Function
  | .user definition scope => .user definition.erase scope
  | f => f

/-- The function is one that the host offers. -/
def Function.ofHost : Function → Bool
  | .host _ _ => true
  | _ => false

theorem Function.ofHost_erase (f : Function) : f.erase.ofHost = f.ofHost := by
  cases f <;> rfl

namespace Heap

variable {α : Type} {h : Heap}

def withFunctions (h : Heap) (functions : Array Function) : Heap := { h with functions }

/-- The heap with the positions in its functions erased. -/
def erase (h : Heap) : Heap := h.withFunctions (h.functions.map Function.erase)

/-- No function of the heap is one that the host offers. -/
def HostFree (h : Heap) : Prop := ∀ f ∈ h.functions, f.ofHost = false

theorem hostFree_erase : h.erase.HostFree ↔ h.HostFree := by
  simp only [HostFree, erase, withFunctions, Array.forall_mem_map, Function.ofHost_erase]

/-- What is read from a heap does not depend on its functions. -/
def Ignores (read : Heap → α) : Prop :=
  ∀ h functions, read (h.withFunctions functions) = read h

/-- A change of a heap leaves its functions as they are and does not depend on them. -/
def Keeps (change : Heap → Heap) : Prop :=
  ∀ h functions, change (h.withFunctions functions) = (change h).withFunctions functions

theorem Ignores.read_erase {read : Heap → α} (hread : Ignores read) (h : Heap) :
    read h.erase = read h :=
  hread h _

theorem Keeps.functions_eq {change : Heap → Heap} (hchange : Keeps change) (h : Heap) :
    (change h).functions = h.functions :=
  calc
    (change h).functions = (change (h.withFunctions h.functions)).functions := rfl
    _ = h.functions := by rw [hchange]; rfl

theorem Keeps.change_erase {change : Heap → Heap} (hchange : Keeps change) (h : Heap) :
    change h.erase = (change h).erase := by
  rw [erase, erase, hchange, hchange.functions_eq]

theorem Keeps.hostFree {change : Heap → Heap} (hchange : Keeps change) (hh : h.HostFree) :
    (change h).HostFree := by
  rw [HostFree, hchange.functions_eq]
  exact hh

/-! ## Reading -/

section Reading

variable (h : Heap) (functions : Array Function)

@[simp]
theorem array_withFunctions (a : ArrayRef) : (h.withFunctions functions).array a = h.array a := rfl

/-- Comparison looks into arrays and objects only. -/
theorem equalWithin?_withFunctions (depth : Nat) (seen : List Pairing) (a b : Value) :
    (h.withFunctions functions).equalWithin? depth seen a b = h.equalWithin? depth seen a b := by
  induction depth generalizing seen a b with
  | zero => rw [equalWithin?, equalWithin?]
  | succ depth ih =>
    rw [equalWithin?, equalWithin?]
    simp only [ih]
    rfl

@[simp]
theorem equal_withFunctions (a b : Value) :
    (h.withFunctions functions).equal a b = h.equal a b := by
  rw [equal, equal, equalWithin?_withFunctions]
  rfl

@[simp]
theorem flatten_withFunctions (depth : Nat) (items : List Value) :
    flatten (h.withFunctions functions) depth items = flatten h depth items := by
  induction depth generalizing items with
  | zero => rfl
  | succ depth ih =>
    rw [flatten, flatten]
    simp only [ih, array_withFunctions]

@[simp]
theorem findBinding?_withFunctions (name : String) (chain : List FrameRef) :
    (h.withFunctions functions).findBinding? name chain = h.findBinding? name chain := by
  induction chain with
  | nil => rfl
  | cons f outer ih =>
    have hframe : (h.withFunctions functions).frame f = h.frame f := rfl
    rw [findBinding?, findBinding?, ih, hframe]

theorem ignores_binary (op : BinaryOp) (a b : Value) : Ignores (·.binary op a b) := by
  intro h functions
  cases op <;> simp [binary]

theorem ignores_lookup? (scope : Scope) (name : String) : Ignores (·.lookup? scope name) := by
  intro h functions
  simp only [lookup?, findBinding?_withFunctions]

theorem ignores_variableSlot (scope : Scope) (name : String) :
    Ignores (·.variableSlot scope name) := by
  intro h functions
  simp only [variableSlot, findBinding?_withFunctions]

theorem function?_erase (f : FunctionRef) :
    h.erase.function? f = (h.function? f).map Function.erase :=
  Array.getElem?_map

end Reading

/-- A function that is found is none of the host's. -/
theorem HostFree.ofHost_eq (hh : h.HostFree) {ref : FunctionRef} {f : Function}
    (hf : h.function? ref = some f) : f.ofHost = false :=
  hh f (Array.mem_of_getElem? hf)

/-! ## Changing -/

theorem keeps_store (value : Value) (slot : Slot) : Keeps (·.store value slot) := by
  intro h functions
  cases slot <;> rfl

theorem keeps_writeMember (container : Value) (name : String) (value : Value) :
    Keeps (·.writeMember container name value) := by
  intro h functions
  cases container <;> rfl

theorem keeps_bindParams (scope : Scope) (params : List String) (args : List Value) :
    Keeps (bindParams · scope params args) := by
  intro h functions
  induction params generalizing h args with
  | nil => rfl
  | cons param params ih => exact ih args.tail (h.define scope param (args.headD .null))

theorem keeps_callFrame (closure : Scope) (params : List String) (args : List Value) :
    Keeps fun h => (callFrame h closure params args).2 :=
  fun h functions => keeps_bindParams _ params args (h.childScope closure).2 functions

/-- A new function of a script, erased like those before it. -/
theorem erase_allocFunction (h : Heap) (f : Function) :
    h.erase.allocFunction f.erase = ((h.allocFunction f).1, (h.allocFunction f).2.erase) := by
  simp [allocFunction, erase, withFunctions, Array.map_push]

theorem HostFree.allocFunction (hh : h.HostFree) {f : Function} (hf : f.ofHost = false) :
    (h.allocFunction f).2.HostFree := by
  intro g hg
  rcases Array.mem_push.mp hg with hg | rfl
  · exact hh g hg
  · exact hf

end Heap

/-! ## Machines -/

namespace Machine

def withHeap (m : Machine) (heap : Heap) : Machine := { m with heap }

/-- The machine with the positions in its functions erased. -/
def erase (m : Machine) : Machine := m.withHeap m.heap.erase

theorem registers_erase (m : Machine) : m.erase.registers = m.registers := rfl

/-- A change of a machine leaves its heap as it is and does not depend on it. -/
def SparesHeap (change : Machine → Machine) : Prop :=
  ∀ m heap, change (m.withHeap heap) = (change m).withHeap heap

theorem SparesHeap.heap_eq {change : Machine → Machine} (hchange : SparesHeap change)
    (m : Machine) : (change m).heap = m.heap :=
  calc
    (change m).heap = (change (m.withHeap m.heap)).heap := rfl
    _ = m.heap := by rw [hchange]; rfl

theorem SparesHeap.erase_eq {change : Machine → Machine} (hchange : SparesHeap change)
    (m : Machine) : (change m).erase = change m.erase := by
  rw [erase, erase, hchange, hchange.heap_eq]

theorem sparesHeap_report (level : Level) (line : String) : SparesHeap (·.report level line) := by
  intro m heap
  have hshows : (m.withHeap heap).verbosity.shows level = m.verbosity.shows level := rfl
  dsimp only
  rw [report, report, hshows]
  split <;> rfl

theorem erase_report (m : Machine) (level : Level) (line : String) :
    (m.report level line).erase = m.erase.report level line :=
  (sparesHeap_report level line).erase_eq m

theorem sparesHeap_record (channel : Channel) (message : String) :
    SparesHeap (·.record channel message) := by
  intro m heap
  have hhas : (m.withHeap heap).sinks.has channel = m.sinks.has channel := rfl
  dsimp only [record]
  rw [hhas]
  split
  · rfl
  · exact sparesHeap_report _ _ { m with output := m.output.push channel message } heap

end Machine

end Quill
