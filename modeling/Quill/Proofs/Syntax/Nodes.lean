import Quill.Syntax.Tree

/-!
# The nodes of a tree

Expressions, statements and functions as nodes of one tree, so that what holds of every part of a
program is said once for the three kinds. `Below` reaches every depth, into the bodies of functions
too, and a node is larger than what is below it.
-/

set_option autoImplicit false

namespace Quill

inductive Node
  | expr (e : Expr)
  | stmt (s : Stmt)
  | function (d : FunctionDef)

namespace Node

/-- Where the node begins. -/
def position : Node → Position
  | expr e => e.position
  | stmt s => s.position
  | function d => d.position

def line (n : Node) : Nat := n.position.line

@[simp]
def ofExprs (es : List Expr) : List Node := es.map expr

@[simp]
def ofStmts (ss : List Stmt) : List Node := ss.map stmt

end Node

open Node

@[simp]
def Expr.children : Expr → List Node
  | .number .. | .string .. | .bool .. | .null .. | .ident .. => []
  | .array items _ => ofExprs items
  | .object entries _ => ofExprs (entries.map Prod.snd)
  | .binary _ left right _ | .logical _ left right _ => [expr left, expr right]
  | .unary _ operand _ => [expr operand]
  | .call callee args _ => expr callee :: ofExprs args
  | .member receiver _ _ _ => [expr receiver]
  | .index container key _ => [expr container, expr key]
  | .ternary condition whenTrue whenFalse _ => [expr condition, expr whenTrue, expr whenFalse]
  | .update _ _ target _ => [expr target]
  | .assign target value _ | .compound _ target value _ => [expr target, expr value]
  | .function d => [Node.function d]

@[simp]
def FunctionBody.children : FunctionBody → List Node
  | .block stmts => ofStmts stmts
  | .expr value => [Node.expr value]

@[simp]
def Handler.children (handler : Handler) : List Node := ofStmts handler.body

@[simp]
def Stmt.children : Stmt → List Node
  | .expr e => [Node.expr e]
  | .declare _ _ init _ => ofExprs init.toList
  | .ifElse condition whenTrue whenFalse _ =>
    Node.expr condition :: stmt whenTrue :: ofStmts whenFalse.toList
  | .ret value _ => ofExprs value.toList
  | .block stmts _ => ofStmts stmts
  | .whileLoop condition body _ | .doWhile body condition _ => [Node.expr condition, stmt body]
  | .forLoop init condition update body _ =>
    stmt body :: ofStmts init.toList ++ ofExprs condition.toList ++ ofExprs update.toList
  | .forEach _ _ _ subject body _ => [Node.expr subject, stmt body]
  | .breakLoop _ | .continueLoop _ => []
  | .tryCatch body handler cleanup _ =>
    ofStmts body ++ handler.toList.flatMap Handler.children ++ cleanup.toList.flatMap ofStmts
  | .throw value _ => [Node.expr value]
  | .function d => [Node.function d]

namespace Node

/-- The nodes directly below. -/
@[simp]
def children : Node → List Node
  | expr e => e.children
  | stmt s => s.children
  | function d => d.body.children

/-- The first node is a part of the second one, at any depth. -/
inductive Below : Node → Node → Prop
  | child {c n : Node} : c ∈ n.children → Below c n
  | deeper {c n' n : Node} : Below c n' → n' ∈ n.children → Below c n

def Everywhere (p : Node → Prop) (n : Node) : Prop := p n ∧ ∀ c, c.Below n → p c

variable {p : Node → Prop} {n c : Node}

theorem Below.trans {a b : Node} (hab : a.Below b) (hbc : b.Below c) : a.Below c := by
  induction hbc with
  | child hmem => exact .deeper hab hmem
  | deeper _ hmem ih => exact .deeper ih hmem

theorem Everywhere.here (h : Everywhere p n) : p n := h.1

theorem Everywhere.below (h : Everywhere p n) (hc : c.Below n) : Everywhere p c :=
  ⟨h.2 c hc, fun d hd => h.2 d (hd.trans hc)⟩

theorem everywhere_iff : Everywhere p n ↔ p n ∧ ∀ c ∈ n.children, Everywhere p c := by
  constructor
  · exact fun h => ⟨h.here, fun c hc => h.below (.child hc)⟩
  · rintro ⟨hn, hchildren⟩
    refine ⟨hn, fun c hc => ?_⟩
    cases hc with
    | child hmem => exact (hchildren c hmem).here
    | deeper hbelow hmem => exact (hchildren _ hmem).2 c hbelow

/-- What follows for a node from what holds of all nodes below it follows for each of these too. -/
theorem Everywhere.imp {q : Node → Prop} (h : Everywhere p n) (himp : ∀ c, Everywhere p c → q c) :
    Everywhere q n :=
  ⟨himp n h, fun c hc => himp c (h.below hc)⟩

theorem Everywhere.of_forall (h : ∀ n, p n) : Everywhere p n := ⟨h n, fun c _ => h c⟩

/-- A check of all nodes, for trees that are no deeper than given. -/
def holdsWithin (p : Node → Prop) [DecidablePred p] : Nat → Node → Bool
  | 0, _ => false
  | depth + 1, n => decide (p n) && n.children.all (holdsWithin p depth)

theorem Everywhere.of_holdsWithin [DecidablePred p] {depth : Nat} :
    ∀ {n : Node}, holdsWithin p depth n = true → Everywhere p n := by
  induction depth with
  | zero => intro n h; cases h
  | succ depth ih =>
    intro n h
    simp only [holdsWithin, Bool.and_eq_true, decide_eq_true_eq, List.all_eq_true] at h
    exact everywhere_iff.mpr ⟨h.1, fun c hc => ih (h.2 c hc)⟩

/-! ## Sizes -/

noncomputable def size : Node → Nat
  | expr e => sizeOf e
  | stmt s => sizeOf s
  | function d => sizeOf d

theorem size_lt_of_mem_ofExprs {es : List Expr} (h : c ∈ ofExprs es) : c.size < sizeOf es := by
  obtain ⟨e, he, rfl⟩ := List.mem_map.mp h
  exact List.sizeOf_lt_of_mem he

theorem size_lt_of_mem_ofStmts {ss : List Stmt} (h : c ∈ ofStmts ss) : c.size < sizeOf ss := by
  obtain ⟨s, hs, rfl⟩ := List.mem_map.mp h
  exact List.sizeOf_lt_of_mem hs

theorem sizeOf_map_snd_le (entries : List (String × Expr)) :
    sizeOf (entries.map Prod.snd) ≤ sizeOf entries := by
  induction entries with
  | nil => simp
  | cons entry rest ih =>
    obtain ⟨key, value⟩ := entry
    simp only [List.map_cons, List.cons.sizeOf_spec, Prod.mk.sizeOf_spec]
    omega

theorem sizeOf_toList_le {α : Type} [SizeOf α] (o : Option α) : sizeOf o.toList ≤ 1 + sizeOf o := by
  cases o <;> simp +arith

theorem size_lt_of_mem_exprChildren {e : Expr} (h : c ∈ e.children) : c.size < sizeOf e := by
  cases e with
  | number | string | bool | null | ident => cases h
  | array items position =>
    have := size_lt_of_mem_ofExprs h
    simp only [Expr.array.sizeOf_spec]
    omega
  | object entries position =>
    have := size_lt_of_mem_ofExprs h
    have := sizeOf_map_snd_le entries
    simp only [Expr.object.sizeOf_spec]
    omega
  | call callee args position =>
    simp only [Expr.call.sizeOf_spec]
    rcases List.mem_cons.mp h with rfl | h
    · simp only [size]
      omega
    · have := size_lt_of_mem_ofExprs h
      omega
  | binary | logical | unary | member | index | ternary | update | assign | compound | function =>
    simp only [Expr.children, List.mem_cons, List.not_mem_nil, or_false] at h
    rcases h with rfl | rfl | rfl <;> simp [size] <;> omega

theorem size_lt_of_mem_stmtChildren {s : Stmt} (h : c ∈ s.children) : c.size < sizeOf s := by
  cases s with
  | breakLoop | continueLoop => cases h
  | declare name constant init position =>
    have := size_lt_of_mem_ofExprs h
    have := sizeOf_toList_le init
    simp only [Stmt.declare.sizeOf_spec]
    omega
  | ret value position =>
    have := size_lt_of_mem_ofExprs h
    have := sizeOf_toList_le value
    simp only [Stmt.ret.sizeOf_spec]
    omega
  | ifElse condition whenTrue whenFalse position =>
    simp only [Stmt.ifElse.sizeOf_spec]
    rcases List.mem_cons.mp h with rfl | h
    · simp only [size]
      omega
    rcases List.mem_cons.mp h with rfl | h
    · simp only [size]
      omega
    · have := size_lt_of_mem_ofStmts h
      have := sizeOf_toList_le whenFalse
      omega
  | block stmts position =>
    have := size_lt_of_mem_ofStmts h
    simp only [Stmt.block.sizeOf_spec]
    omega
  | forLoop init condition update body position =>
    have := sizeOf_toList_le init
    have := sizeOf_toList_le condition
    have := sizeOf_toList_le update
    simp only [Stmt.children, List.cons_append, List.mem_cons, List.mem_append] at h
    simp only [Stmt.forLoop.sizeOf_spec]
    rcases h with rfl | (h | h) | h
    · simp only [size]
      omega
    · have := size_lt_of_mem_ofStmts h
      omega
    · have := size_lt_of_mem_ofExprs h
      omega
    · have := size_lt_of_mem_ofExprs h
      omega
  | tryCatch body handler cleanup position =>
    simp only [Stmt.children, List.mem_append, List.mem_flatMap, Option.mem_toList] at h
    simp only [Stmt.tryCatch.sizeOf_spec]
    rcases h with (h | ⟨handler, rfl, h⟩) | ⟨cleanup, rfl, h⟩
    · have := size_lt_of_mem_ofStmts h
      omega
    · obtain ⟨param, stmts, position⟩ := handler
      have : c.size < sizeOf stmts := size_lt_of_mem_ofStmts h
      simp only [Option.some.sizeOf_spec, Handler.mk.sizeOf_spec]
      omega
    · have := size_lt_of_mem_ofStmts h
      simp only [Option.some.sizeOf_spec]
      omega
  | expr | whileLoop | doWhile | forEach | throw | function =>
    simp only [Stmt.children, List.mem_cons, List.not_mem_nil, or_false] at h
    rcases h with rfl | rfl <;> simp [size] <;> omega

theorem size_lt_of_mem_bodyChildren {body : FunctionBody} (h : c ∈ body.children) :
    c.size < sizeOf body := by
  cases body with
  | block stmts =>
    have := size_lt_of_mem_ofStmts h
    simp only [FunctionBody.block.sizeOf_spec]
    omega
  | expr value =>
    obtain rfl := List.mem_singleton.mp h
    simp only [size, FunctionBody.expr.sizeOf_spec]
    omega

theorem size_lt_of_mem_children (h : c ∈ n.children) : c.size < n.size := by
  cases n with
  | expr e => exact size_lt_of_mem_exprChildren h
  | stmt s => exact size_lt_of_mem_stmtChildren h
  | function d =>
    obtain ⟨name, params, body, position⟩ := d
    have hbody : c.size < sizeOf body := size_lt_of_mem_bodyChildren h
    calc
      c.size < sizeOf body := hbody
      _ < sizeOf (FunctionDef.mk name params body position) := by simp; omega

theorem Below.size_lt (h : c.Below n) : c.size < n.size := by
  induction h with
  | child hmem => exact size_lt_of_mem_children hmem
  | deeper _ hmem ih => exact Nat.lt_trans ih (size_lt_of_mem_children hmem)

end Node

end Quill
