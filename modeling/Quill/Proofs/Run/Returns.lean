import Quill.Proofs.Run.Delivers
import Quill.Proofs.Syntax.Nodes

/-!
# Where a `return` comes from

A statement ends by returning only if a `return` stands in it, outside of the bodies of functions.
Blocks, branches, loops and handlers hand on how their statements end, and what a function body ends
with goes no further than its call.
-/

set_option autoImplicit false

namespace Quill

/-- A `return` stands in the statement, outside of the bodies of functions. -/
inductive Stmt.Returns : Stmt → Prop
  | here {value : Option Expr} {position : Position} : Returns (.ret value position)
  | inside {s part : Stmt} : Node.stmt part ∈ s.children → Returns part → Returns s

/-- No `return` stands in the statements, outside of the bodies of functions. -/
def ReturnFree (stmts : List Stmt) : Prop := ∀ s ∈ stmts, ¬ s.Returns

/-- A function or a program around the statement is to take this up. -/
def Completion.isReturn : Completion → Bool
  | .returned _ => true
  | .normal _ | .broke | .continued => false

theorem Completion.endsWith_leavesLoop? {c : Completion} (h : c.isReturn = false) :
    EndsWith (·.isReturn = false) c.leavesLoop? := by
  intro d hd
  cases c with
  | normal | continued => cases hd
  | broke => cases hd; rfl
  | returned => cases h

theorem ReturnFree.of_children {s : Stmt} {stmts : List Stmt} (h : ¬ s.Returns)
    (hstmts : ∀ part ∈ stmts, Node.stmt part ∈ s.children) : ReturnFree stmts :=
  fun part hpart hreturns => h (.inside (hstmts part hpart) hreturns)

section Statements

open Run.Delivers

variable {r : Eval} (hr : ∀ {s}, ¬ s.Returns → (r.stmt s).Delivers (·.isReturn = false))

include hr

theorem runStmts_delivers {stmts : List Stmt} (h : ReturnFree stmts) (last : Value) :
    (runStmts r last stmts).Delivers (·.isReturn = false) := by
  induction stmts generalizing last with
  | nil => exact pure rfl
  | cons stmt rest ih =>
    obtain ⟨hstmt, hrest⟩ := List.forall_mem_cons.mp h
    refine bind_of (hr hstmt) fun c hc => ?_
    cases c with
    | normal value => exact ih hrest value
    | returned | broke | continued => exact pure hc

theorem runBlock_delivers {stmts : List Stmt} (h : ReturnFree stmts) :
    (runBlock r stmts).Delivers (·.isReturn = false) :=
  inChild (runStmts_delivers hr h _)

theorem runGuarded_delivers {body : List Stmt} {handler : Option Handler} (hbody : ReturnFree body)
    (hhandler : ∀ clause ∈ handler, ReturnFree clause.body) :
    (runGuarded r body handler).Delivers (·.isReturn = false) := by
  refine bind_of (attempt (runBlock_delivers hr hbody)) fun outcome houtcome => ?_
  split
  · next f clause =>
    exact inChildWith _ _ _ (runStmts_delivers hr (hhandler clause rfl) _)
  · exact resume houtcome

theorem runTry_delivers {body : List Stmt} {handler : Option Handler} {cleanup : Option (List Stmt)}
    (hbody : ReturnFree body) (hhandler : ∀ clause ∈ handler, ReturnFree clause.body)
    (hcleanup : ∀ stmts ∈ cleanup, ReturnFree stmts) :
    (runTry r body handler cleanup).Delivers (·.isReturn = false) := by
  cases cleanup with
  | none => exact runGuarded_delivers hr hbody hhandler
  | some stmts =>
    refine bind_of (attempt (runGuarded_delivers hr hbody hhandler)) fun outcome houtcome => ?_
    refine bind_of (runBlock_delivers hr (hcleanup stmts rfl)) fun c hc => ?_
    cases c with
    | normal value => exact resume houtcome
    | returned | broke | continued => exact pure hc

/-- Every form of statement, given its parts. -/
theorem execStmt_delivers {s : Stmt} (hs : ¬ s.Returns) :
    (execStmt r s).Delivers (·.isReturn = false) := by
  have hpart {part : Stmt} (hmem : Node.stmt part ∈ s.children) :
      (r.stmt part).Delivers (·.isReturn = false) := hr fun h => hs (.inside hmem h)
  have hend : loopEnd.isReturn = false := rfl
  have hloop {part : Stmt} (hmem : Node.stmt part ∈ s.children) :
      (r.stmt part).Delivers fun c => EndsWith (·.isReturn = false) c.leavesLoop? :=
    fun m c m' hok => Completion.endsWith_leavesLoop? (hpart hmem m c m' hok)
  cases s with
  | expr e => exact bind fun _ => pure rfl
  | declare name constant init position => exact bind fun _ => bind fun _ => pure rfl
  | ifElse condition whenTrue whenFalse position =>
    refine bind fun v => ?_
    split
    · exact hpart (by simp)
    · cases whenFalse with
      | some stmt => exact hpart (by simp)
      | none => exact pure rfl
  | ret value position => exact absurd .here hs
  | block stmts position =>
    exact runBlock_delivers hr (.of_children hs fun part hmem => by simpa using hmem)
  | whileLoop condition body position =>
    exact inLoop (delivers_iterate (delivers_whilePass hend (hloop (by simp)) condition) _)
  | doWhile body condition position =>
    exact inLoop (delivers_iterate (delivers_doWhilePass hend (hloop (by simp)) condition) _)
  | forLoop init condition update body position =>
    exact inChild (bind fun _ =>
      inLoop (delivers_iterate (delivers_forPass hend (hloop (by simp)) condition update) _))
  | forEach name constant traversal subject body position =>
    exact bind fun _ => bind fun _ =>
      inLoop (delivers_eachPass hend (hloop (by simp)) name (!constant) _)
  | breakLoop position | continueLoop position =>
    intro m c m' hok
    simp only [execStmt, Run.loopControl] at hok
    split at hok
    · cases hok
    · cases hok
      rfl
  | tryCatch body handler cleanup position =>
    refine runTry_delivers hr (.of_children hs fun part hmem => by simp [hmem])
      (fun clause hclause => .of_children hs fun part hmem => ?_)
      fun stmts hstmts => .of_children hs fun part hmem => ?_
    · obtain rfl := hclause
      simp [hmem]
    · obtain rfl := hstmts
      simp [hmem]
  | throw value position => exact bind fun _ => fail _ _
  | function d =>
    refine bind fun f => ?_
    dsimp only
    split
    · exact bind fun _ => pure rfl
    · exact pure rfl

end Statements

/-- Statements in which no `return` stands do not end by returning. -/
theorem evaluator_delivers (host : Host) (fuel : Nat) {s : Stmt} (hs : ¬ s.Returns) :
    ((evaluator host fuel).stmt s).Delivers (·.isReturn = false) := by
  induction fuel generalizing s with
  | zero => intro m c m' hok; cases hok
  | succ fuel ih => exact execStmt_delivers ih hs

end Quill
