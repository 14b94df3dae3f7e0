import Quill.Proofs.Contract.Programs
import Quill.Proofs.Syntax.Origins
import Quill.Proofs.Syntax.Soundness.Stmt
import Quill.Proofs.Token.Placement

/-!
# Failures tell a line of the source

The lexer counts lines, the parser gives every node the place of one of its tokens, and a failure
takes the line of a node: of the one that fails, or of the call around it if it was raised without a
line. So what nobody catches tells a line that the source has.
-/

set_option autoImplicit false

namespace Quill

/-! ## Lines of tokens and nodes -/

/-- The line is one of a source. -/
def OnLine (source : String) (line : Nat) : Prop :=
  1 ≤ line ∧ line ≤ 1 + source.toList.count '\n'

theorem onLine_behind {source : String} {front back : List Char}
    (h : source.toList = front ++ back) : OnLine source (Position.behind front).line := by
  unfold OnLine Position.behind
  rw [h, List.count_append]
  dsimp only
  omega

theorem onLine_of_mem_tokens {source : String} {t : Token} (ht : t ∈ (tokenize source).tokens) :
    OnLine source t.position.line := by
  rcases List.mem_append.mp ht with ht | ht
  · obtain ⟨piece, hpiece, ht⟩ := List.mem_filterMap.mp ht
    obtain ⟨-, front, back, hposition, hflatten⟩ := Piece.exists_of_mem_place hpiece
    rw [Slice.flatten_slices] at hflatten
    rw [Piece.position_of_token? ht, hposition, Position.start_advance]
    exact onLine_behind hflatten
  · obtain rfl := List.mem_singleton.mp ht
    rw [endOfInput, Position.start_advance]
    exact onLine_behind (List.append_nil _).symm

/-- Every node of a program that was compiled is on a line of the source. -/
theorem onLine_of_compile {source : String} {program : List Stmt}
    (h : compile source = .ok program) :
    ∀ s ∈ program, (Node.stmt s).Everywhere fun n => OnLine source n.line := by
  obtain ⟨hnone, rfl⟩ := of_compile_eq_ok h
  have hderived := Syntax.statements_derived (Syntax.Rules.sound_atDepth _ _)
    (Nat.le_refl _) hnone
  intro s hs
  have hspelled := hderived.spelled (p := fun t => OnLine source t.position.line)
    (fun t ht => onLine_of_mem_tokens ((List.takeWhile_sublist _).subset ht)) s hs
  refine hspelled.everywhere.imp fun n hn => ?_
  obtain ⟨t, ht, hposition⟩ := hn.here.exists_position
  rw [Node.line, hposition]
  exact ht

/-! ## Every run -/

/-- Runs without functions of the host that fail on lines of a source, as the functions in the heap
are written on them. -/
def linesContract (source : String) : Contract where
  function
    | .user d _ => (Node.function d).Everywhere fun n => OnLine source n.line
    | .builtin _ | .bound _ _ => True
    | .host _ _ => False
  change _ _ _ _ := True
  line := OnLine source
  mayStop _ _ := True

theorem linesContract_lawful (source : String) : (linesContract source).Lawful :=
  .of_change (fun _ _ _ _ => trivial) (fun _ _ h => h) fun _ _ _ _ => trivial

theorem linesContract_admits {source : String} {n : Node}
    (h : n.Everywhere fun n => OnLine source n.line) :
    (linesContract source).Admits n where
  line := h.here
  method _ _ := trivial
  function {d} hd _ := by
    subst hd
    exact h
  repeats _ _ _ := trivial

/-- A program that was compiled has a value on a new machine, or goes on, or fails on a line of its
source. Line `0`, which stands for a line still to be attached, is none of these. -/
theorem failure_on_line {source : String} {program : List Stmt}
    (hcompile : compile source = .ok program) (host : Host) (fuel depth : Nat) :
    let outcome := ((Machine.new.limitCalls depth).run (execute (evaluator host fuel) program)).1
    (∃ v, outcome = .value v) ∨ outcome = .outOfFuel ∨
      (∃ f, outcome = .failed f ∧ 1 ≤ f.line ∧ f.line ≤ 1 + source.toList.count '\n') := by
  have hadmits {n : Node} (h : n.Everywhere fun n => OnLine source n.line) :
      n.Everywhere (linesContract source).Admits :=
    h.imp fun _ => linesContract_admits
  obtain ⟨-, hstmt, -⟩ := evaluator_meets (linesContract_lawful source) host
    (fun _ _ => trivial) hadmits fuel
  have hstmts : ∀ s ∈ program, ((evaluator host fuel).stmt s).Meets
      (linesContract source) s.declared true :=
    fun s hs => hstmt (hadmits (onLine_of_compile hcompile s hs))
  intro outcome
  have hend : (linesContract source).AllowsOutcome depth outcome :=
    (linesContract_lawful source).outcome (fun _ => trivial) depth hstmts
  clear_value outcome
  cases hend with
  | value v => exact .inl ⟨v, rfl⟩
  | outOfFuel => exact .inr (.inl rfl)
  | @failed f hline => exact .inr (.inr ⟨f, rfl, hline⟩)

/-- `[].reduce(log)` on the second line: the method fails without a line, and is given that of its
call. -/
def emptyReduceSource : String := "\n[].reduce(log)"

theorem emptyReduce_on_line :
    ∃ program, compile emptyReduceSource = .ok program ∧
      let outcome := (Machine.new.run (execute (evaluator smallHost 20) program)).1
      outcome = .failed ⟨2, .emptyReduce⟩ ∧
      ((∃ v, outcome = .value v) ∨ outcome = .outOfFuel ∨
        (∃ f, outcome = .failed f ∧ 1 ≤ f.line ∧
          f.line ≤ 1 + emptyReduceSource.toList.count '\n')) := by
  have hruns : (compile emptyReduceSource).toOption.map
      (fun program => (Machine.new.run (execute (evaluator smallHost 20) program)).1) =
        some (.failed ⟨2, .emptyReduce⟩) := by
    decide +kernel
  cases hcompile : compile emptyReduceSource with
  | ok program =>
    rw [hcompile] at hruns
    exact ⟨program, rfl, Option.some.inj hruns,
      failure_on_line hcompile smallHost 20 defaultMaxCallDepth⟩
  | error diagnostics =>
    rw [hcompile] at hruns
    cases hruns

end Quill
