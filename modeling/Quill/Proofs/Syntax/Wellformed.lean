import Quill.Proofs.Syntax.Origins
import Quill.Proofs.Syntax.Soundness.Stmt

/-!
# Trees that the parser makes

The types of trees allow more than the grammar does: an assignment to a sum, a `try` with nothing
behind it, a function statement without a name. None of this is made by the parser. That is so for
every statement that it returns, those beside faulty ones too, as each was spelled by tokens of its
own.
-/

set_option autoImplicit false

namespace Quill

/-! ## What the grammar promises -/

/-- What is assigned to can be written, and the operators that do so and compute are these. -/
def Expr.WellFormed : Expr → Prop
  | .assign target _ _ => target.isAssignable = true
  | .compound op target _ _ =>
    target.isAssignable = true ∧ (op = .add ∨ op = .sub ∨ op = .mul ∨ op = .div)
  | _ => True

/-- What a counting loop may begin with. -/
def Stmt.opensLoop : Stmt → Bool
  | .declare .. | .expr _ => true
  | _ => false

def Stmt.WellFormed : Stmt → Prop
  | .declare _ constant init _ => constant = true → init.isSome
  | .forLoop init _ _ _ _ => ∀ s ∈ init, s.opensLoop = true
  | .tryCatch _ handler cleanup _ => handler.isSome ∨ cleanup.isSome
  | .function d => d.name.isSome
  | _ => True

/-- Only functions without a name, those with an arrow, can do without braces. -/
def FunctionDef.WellFormed (d : FunctionDef) : Prop :=
  d.name.isSome → ∃ stmts, d.body = .block stmts

/-- What is said of the node itself, and not of those below it. -/
def Node.WellFormed : Node → Prop
  | .expr e => e.WellFormed
  | .stmt s => s.WellFormed
  | .function d => d.WellFormed

namespace Syntax

variable {ts : List Token}

/-! ## Derived trees -/

theorem wellFormed_compound {op : BinaryOp} {sym : Symbol} (h : op.assignSymbol? = some sym) :
    op = .add ∨ op = .sub ∨ op = .mul ∨ op = .div := by
  cases op <;> simp_all [BinaryOp.assignSymbol?]

theorem Derives.wellFormed {level : Level} {ts : List Token} {e : Expr} :
    Derives level ts e → e.WellFormed
  | .tighter h | .group _ h _ => h.wellFormed
  | .assign _ htarget _ _ => htarget
  | .compound _ htarget _ hsym _ => ⟨htarget, wellFormed_compound hsym⟩
  | @Derives.infixed op .. => by cases op <;> trivial
  | .ternary .. | .unary .. | .updateBefore .. | .call .. | .member .. | .optionalMember ..
  | .index .. | .updateAfter .. | .number _ | .string _ | .bool _ | .null _ | .ident _ | .array ..
  | .object .. | .arrowOf .. | .arrow .. | .function .. => trivial

theorem Declaration.wellFormed {s : Stmt} (h : Declaration ts s) : s.WellFormed := by
  cases h with
  | bare => exact nofun
  | initialized => exact fun _ => rfl

theorem LoopInit.opensLoop {init : Option Stmt} (h : LoopInit ts init) :
    ∀ s ∈ init, s.opensLoop = true := by
  intro s hs
  cases h with
  | none => cases hs
  | declaration hdeclaration =>
    cases hs
    cases hdeclaration <;> rfl
  | expr =>
    cases hs
    rfl

theorem Statement.wellFormed {s : Stmt} (h : Statement ts s) : s.WellFormed := by
  cases h with
  | declaration hdeclaration => exact hdeclaration.wellFormed
  | forLoop _ _ hinit => exact hinit.opensLoop
  | tryCatch _ _ _ _ hclause => exact hclause
  | function _ _ hrest =>
    cases hrest
    rfl
  | _ => trivial

/-- A node that tokens spell is well-formed, whatever the tokens. -/
theorem Spelled.wellFormed {p : Token → Prop} {n : Node} (h : Spelled p n) : n.WellFormed := by
  cases h with
  | expr he => exact he.wellFormed
  | stmt hs => exact hs.wellFormed
  | loopInit hinit =>
    cases hinit with
    | declaration hdeclaration => exact hdeclaration.wellFormed
    | expr => trivial
  | arrow => exact nofun
  | function _ hrest =>
    cases hrest
    exact fun _ => ⟨_, rfl⟩

/-! ## Parsed trees -/

variable {r : Rules}

/-- A statement among the results is spelled by some tokens, whatever became of the others. -/
theorem statement_of_mem (hr : r.Sound) {s : Stmt} (passes : Nat) :
    ∀ c : Cursor, s ∈ (statements r passes c).statements → ∃ ts, Statement ts s := by
  induction passes with
  | zero => exact fun _ hs => nomatch hs
  | succ passes ih =>
    intro c hs
    rw [statements] at hs
    split at hs
    · cases hs
    · split at hs
      · exact ih _ hs
      · split at hs
        · next hstmt =>
          rcases List.mem_cons.mp hs with rfl | hs
          · obtain ⟨ts, -, d⟩ := hr.stmt hstmt
            exact ⟨ts, d⟩
          · exact ih _ hs
        · exact ih _ hs

/-- All nodes of all statements that the parser returns are well-formed. -/
theorem parse_wellFormed (tokens : List Token) :
    ∀ s ∈ (parse tokens).statements, (Node.stmt s).Everywhere Node.WellFormed := by
  intro s hs
  obtain ⟨ts, hspells⟩ := statement_of_mem (Rules.sound_atDepth _ _) _ _ hs
  have hspelled : Spelled (fun _ => True) (.stmt s) := .stmt hspells fun _ _ => trivial
  exact hspelled.everywhere.imp fun n hn => hn.here.wellFormed

end Syntax

end Quill
