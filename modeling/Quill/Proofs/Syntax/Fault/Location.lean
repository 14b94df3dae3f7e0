import Quill.Proofs.Syntax.Steps

/-!
# A fault is at a token that was seen

The cursor only goes forward, and a rule that fails points at a token between where it began and
where it stopped: at the one it stopped at, at an operator or a key that it has passed, or, for a
`try` without clauses, at its first token. `Located c out` says so of an outcome that was begun at
the cursor `c`, and that the fault is one of the grammar and not of the characters.

A rule is a chain of small ones, so the statement is carried through the chains. Only three rules
point back at a token they have passed, and these look at where they began.
-/

set_option autoImplicit false

namespace Quill.Syntax

variable {α β : Type} {c c' c'' : Cursor} {r : Rules}

/-! ## Going forward -/

/-- The second cursor is the first one or further on. -/
structure Cursor.Reaches (c c' : Cursor) : Prop where
  rest : c'.rest <:+ c.rest
  finish : c'.finish = c.finish

namespace Cursor.Reaches

theorem refl (c : Cursor) : c.Reaches c := ⟨List.suffix_rfl, rfl⟩

theorem trans (h : c.Reaches c') (h' : c'.Reaches c'') : c.Reaches c'' :=
  ⟨h'.rest.trans h.rest, h'.finish.trans h.finish⟩

theorem next (c : Cursor) : c.Reaches c.next := by
  obtain ⟨line, rest, finish⟩ := c
  cases rest with
  | nil => exact refl _
  | cons t ts => exact ⟨List.suffix_cons t ts, rfl⟩

end Cursor.Reaches

/-- A token at this position stands between the two cursors, or at the second one. -/
def Cursor.Shows (c c' : Cursor) (p : Position) : Prop :=
  ∃ seen, c.Reaches seen ∧ seen.Reaches c' ∧ seen.current.position = p

theorem Cursor.Shows.reaches {p : Position} (h : c.Shows c' p) : c.Reaches c' := by
  obtain ⟨seen, hseen, hstop, -⟩ := h
  exact hseen.trans hstop

/-! ## Outcomes -/

/-- The cursor has gone forward, and a fault of the grammar is at a token on the way. -/
inductive Located (c : Cursor) : EStateM.Result Diagnostic Cursor α → Prop
  | ok {a : α} {c' : Cursor} : c.Reaches c' → Located c (.ok a c')
  | error {d : Diagnostic} {c' : Cursor} :
      c.Shows c' d.position → d.code.isLexical = false → Located c (.error d c')

/-- Wherever the rule begins, its outcome is located. -/
def Locates (p : Parse α) : Prop := ∀ c, Located c (p c)

namespace Located

theorem stop (a : α) : Located c (.ok a c) := .ok (.refl c)

/-- A fault at the token where the rule stops. -/
theorem here {fault : Fault} (h : fault.code.isLexical = false) :
    Located c (.error ⟨fault, c.current.position⟩ c : EStateM.Result Diagnostic Cursor α) :=
  .error ⟨c, .refl c, .refl c, rfl⟩ h

/-- A fault at the token where the rule began. -/
theorem back {fault : Fault} (h : fault.code.isLexical = false) (hc : c.Reaches c') :
    Located c (failAt c.current.position fault c' : EStateM.Result Diagnostic Cursor α) :=
  .error ⟨c, .refl c, hc, rfl⟩ h

/-- What is located from further on is located from before. -/
theorem from_before {out : EStateM.Result Diagnostic Cursor α} (hc : c.Reaches c')
    (h : Located c' out) : Located c out := by
  cases h with
  | ok hstop => exact .ok (hc.trans hstop)
  | error hshows hcode =>
    obtain ⟨seen, hseen, hstop, hp⟩ := hshows
    exact .error ⟨seen, hc.trans hseen, hstop, hp⟩ hcode

theorem bind {p : Parse α} {f : α → Parse β} (hp : Located c (p c'))
    (hf : ∀ a c'', c.Reaches c'' → Located c (f a c'')) : Located c ((p >>= f) c') := by
  simp only [Bind.bind, EStateM.bind]
  generalize p c' = out at hp
  cases hp with
  | ok hstop => exact hf _ _ hstop
  | error hshows hcode => exact .error hshows hcode

end Located

/-! ## Chains and repetitions -/

namespace Locates

theorem pure (a : α) : Locates (Pure.pure a : Parse α) := fun _ => .stop a

theorem bind {p : Parse α} {f : α → Parse β} (hp : Locates p) (hf : ∀ a, Locates (f a)) :
    Locates (p >>= f) := by
  intro c
  apply Located.bind (hp c)
  intro a c' hc
  exact (hf a c').from_before hc

theorem peek : Locates peek := fun c => .stop c.current

theorem get : Locates (MonadState.get : Parse Cursor) := fun c => .stop c

theorem advance : Locates advance := fun c => .ok (.next c)

theorem check (kind : TokenKind) : Locates (check kind) := fun _ => .stop _

theorem atEnd : Locates atEnd := fun c => .stop c.atEnd

theorem accept (kind : TokenKind) : Locates (accept kind) := by
  intro c
  unfold Syntax.accept
  split
  · exact .ok (.next c)
  · exact .stop false

theorem expect (kind : TokenKind) (wanted : String) : Locates (expect kind wanted) := by
  intro c
  unfold Syntax.expect
  split
  · exact .ok (.next c)
  · exact .here rfl

theorem unexpected (wanted : String) : Locates (unexpected wanted : Parse α) := fun _ => .here rfl

theorem tooDeep (what : Nesting) : Locates (tooDeep what : Parse α) := fun _ => .here rfl

theorem identifier : Locates identifier := by
  refine peek.bind fun t => ?_
  split
  · exact advance.bind fun _ => .pure _
  · exact .unexpected _

theorem propertyName : Locates propertyName := by
  refine peek.bind fun t => ?_
  split
  · exact advance.bind fun _ => .pure _
  · split
    · exact advance.bind fun _ => .pure _
    · exact .unexpected _

theorem extend {more : α → Parse (Option α)} (h : ∀ x, Locates (more x)) (passes : Nat) (x : α) :
    Locates (extend more passes x) := by
  induction passes generalizing x with
  | zero => exact .pure x
  | succ passes ih =>
    refine (h x).bind fun y => ?_
    cases y with
    | none => exact .pure x
    | some y => exact ih y

theorem commaList {item : Parse α} (h : Locates item) (close : Symbol) (passes : Nat)
    (done : List α) : Locates (commaList close item passes done) := by
  induction passes generalizing done with
  | zero => exact .pure _
  | succ passes ih =>
    refine (check _).bind fun _ => atEnd.bind fun _ => ?_
    split
    · exact .pure _
    · refine h.bind fun x => (accept _).bind fun _ => ?_
      split
      · exact ih _
      · exact .pure _

end Locates

/-- The counted rules locate their faults. -/
structure Rules.Locate (r : Rules) : Prop where
  stmt : Locates r.stmt
  assignment : Locates r.assignment
  ternary : Locates r.ternary
  unary : Locates r.unary

/-! ## Blocks and functions -/

theorem blockItem_locates (h : r.Locate) (done : List Stmt) : Locates (blockItem r done) := by
  refine (Locates.check _).bind fun _ => Locates.atEnd.bind fun _ => ?_
  split
  · exact .pure _
  · refine (Locates.accept _).bind fun _ => ?_
    split
    · exact .pure _
    · exact h.stmt.bind fun _ => .pure _

theorem block_locates (h : r.Locate) : Locates (block r) := by
  refine (Locates.expect _ _).bind fun _ => ?_
  refine (Locates.extend (blockItem_locates h) _ _).bind fun _ => ?_
  exact (Locates.expect _ _).bind fun _ => .pure _

theorem params_locates (r : Rules) : Locates (params r) := Locates.identifier.commaList _ _ _

theorem functionRest_locates (h : r.Locate) (name : Option String) (position : Position) :
    Locates (functionRest r name position) := by
  refine (Locates.expect _ _).bind fun _ => (params_locates r).bind fun _ => ?_
  exact (Locates.expect _ _).bind fun _ => (block_locates h).bind fun _ => .pure _

theorem arrowBody_locates (h : r.Locate) : Locates (arrowBody r) := by
  refine (Locates.check _).bind fun _ => ?_
  split
  · exact (block_locates h).bind fun _ => .pure _
  · exact h.assignment.bind fun _ => .pure _

theorem arrowFunction_locates (h : r.Locate) : Locates (arrowFunction r) := by
  refine Locates.peek.bind fun _ => (Locates.expect _ _).bind fun _ => ?_
  refine (params_locates r).bind fun _ => (Locates.expect _ _).bind fun _ => ?_
  exact (Locates.expect _ _).bind fun _ => (arrowBody_locates h).bind fun _ => .pure _

/-! ## Operands -/

theorem property_locates (h : r.Locate) : Locates (property r) := by
  intro c
  rw [property, advance_bind]
  cases propertyKey? c.current with
  -- The key has been passed, and the fault points back at it.
  | none => exact .back rfl (.next c)
  | some key =>
    refine Located.from_before (.next c) ?_
    refine (Locates.check _).bind (fun _ => (Locates.check _).bind fun _ => ?_) _
    split
    · exact .pure _
    · exact (Locates.expect _ _).bind fun _ => h.assignment.bind fun _ => .pure _

theorem objectLiteral_locates (h : r.Locate) : Locates (objectLiteral r) := by
  refine Locates.peek.bind fun _ => (Locates.expect _ _).bind fun _ => ?_
  refine ((property_locates h).commaList _ _ _).bind fun _ => ?_
  exact (Locates.expect _ _).bind fun _ => .pure _

theorem arrayLiteral_locates (h : r.Locate) : Locates (arrayLiteral r) := by
  refine Locates.advance.bind fun _ => (h.assignment.commaList _ _ _).bind fun _ => ?_
  exact (Locates.expect _ _).bind fun _ => .pure _

theorem parenthesized_locates (h : r.Locate) : Locates (parenthesized r) := by
  refine Locates.get.bind fun _ => ?_
  split
  · exact arrowFunction_locates h
  · refine Locates.advance.bind fun _ => h.assignment.bind fun _ => ?_
    exact (Locates.expect _ _).bind fun _ => .pure _

theorem nameOrArrow_locates (h : r.Locate) (name : String) : Locates (nameOrArrow r name) := by
  refine Locates.advance.bind fun _ => (Locates.accept _).bind fun _ => ?_
  split
  · exact (arrowBody_locates h).bind fun _ => .pure _
  · exact .pure _

theorem functionExpr_locates (h : r.Locate) : Locates (functionExpr r) := by
  refine Locates.advance.bind fun _ => Locates.peek.bind fun _ => ?_
  split
  · refine Locates.advance.bind fun _ => ?_
    exact (functionRest_locates h _ _).bind fun _ => .pure _
  · exact (functionRest_locates h _ _).bind fun _ => .pure _

theorem primary_locates (h : r.Locate) : Locates (primary r) := by
  refine Locates.peek.bind fun token => ?_
  split
  · exact Locates.advance.bind fun _ => .pure _
  · exact Locates.advance.bind fun _ => .pure _
  · exact Locates.advance.bind fun _ => .pure _
  · exact Locates.advance.bind fun _ => .pure _
  · exact nameOrArrow_locates h _
  · exact parenthesized_locates h
  · exact arrayLiteral_locates h
  · exact objectLiteral_locates h
  · exact functionExpr_locates h
  · exact .unexpected _

theorem suffix_locates (h : r.Locate) (operand : Expr) : Locates (suffix r operand) := by
  refine Locates.peek.bind fun token => ?_
  split
  · refine Locates.advance.bind fun _ => (h.assignment.commaList _ _ _).bind fun _ => ?_
    exact (Locates.expect _ _).bind fun _ => .pure _
  · exact Locates.advance.bind fun _ => Locates.propertyName.bind fun _ => .pure _
  · exact Locates.advance.bind fun _ => Locates.propertyName.bind fun _ => .pure _
  · refine Locates.advance.bind fun _ => h.assignment.bind fun _ => ?_
    exact (Locates.expect _ _).bind fun _ => .pure _
  · split
    · refine Locates.get.bind fun _ => ?_
      split
      · exact Locates.advance.bind fun _ => .pure _
      · exact .pure _
    · exact .pure _

theorem suffixed_locates (h : r.Locate) : Locates (suffixed r) :=
  (primary_locates h).bind fun _ => .extend (suffix_locates h) _ _

/-! ## Operators -/

theorem unaryRule_locates (h : r.Locate) : Locates (unaryRule r) := by
  refine Locates.peek.bind fun token => ?_
  split
  · exact Locates.advance.bind fun _ => h.unary.bind fun _ => .pure _
  · exact Locates.advance.bind fun _ => h.unary.bind fun _ => .pure _
  · split
    · exact Locates.advance.bind fun _ => h.unary.bind fun _ => .pure _
    · exact suffixed_locates h

theorem infixStep_locates (row : List (Symbol × InfixOp)) {operand : Parse Expr}
    (h : Locates operand) (left : Expr) : Locates (infixStep row operand left) := by
  refine Locates.peek.bind fun token => ?_
  split
  · exact .pure _
  · exact Locates.advance.bind fun _ => h.bind fun _ => .pure _

theorem infixRule_locates (h : r.Locate) (rows : List (List (Symbol × InfixOp))) :
    Locates (infixRule r rows) := by
  induction rows with
  | nil => exact unaryRule_locates h
  | cons row tighter ih => exact ih.bind fun _ => .extend (infixStep_locates row ih) _ _

theorem ternaryRule_locates (h : r.Locate) : Locates (ternaryRule r) := by
  refine (infixRule_locates h _).bind fun _ => (Locates.accept _).bind fun _ => ?_
  split
  · refine h.assignment.bind fun _ => (Locates.expect _ _).bind fun _ => ?_
    exact h.ternary.bind fun _ => .pure _
  · exact .pure _

theorem assignmentRest_locates (h : r.Locate) (target : Expr) (build : Expr → Expr) :
    Locates (assignmentRest r target build) := by
  intro c
  rw [assignmentRest, advance_bind]
  split
  · exact Located.from_before (.next c) (h.assignment.bind (fun _ => .pure _) _)
  -- The operator has been passed, and the fault points back at it.
  · exact .back rfl (.next c)

theorem assignmentRule_locates (h : r.Locate) : Locates (assignmentRule r) := by
  refine (ternaryRule_locates h).bind fun target => Locates.peek.bind fun token => ?_
  dsimp only
  split
  · exact assignmentRest_locates h _ _
  · split
    · exact assignmentRest_locates h _ _
    · exact .pure _

/-! ## Statements -/

theorem declaration_locates (h : r.Locate) : Locates (declaration r) := by
  refine Locates.advance.bind fun _ => Locates.identifier.bind fun _ => ?_
  split
  · exact (Locates.expect _ _).bind fun _ => h.assignment.bind fun _ => .pure _
  · refine (Locates.accept _).bind fun _ => ?_
    split
    · exact h.assignment.bind fun _ => .pure _
    · exact .pure _

theorem condition_locates (h : r.Locate) (word : Keyword) : Locates (condition r word) := by
  refine (Locates.expect _ _).bind fun _ => h.assignment.bind fun _ => ?_
  exact (Locates.expect _ _).bind fun _ => .pure _

theorem ifRule_locates (h : r.Locate) : Locates (ifRule r) := by
  refine Locates.advance.bind fun _ => (condition_locates h _).bind fun _ => ?_
  refine h.stmt.bind fun _ => (Locates.accept _).bind fun _ => ?_
  split
  · exact h.stmt.bind fun _ => .pure _
  · exact .pure _

theorem whileRule_locates (h : r.Locate) : Locates (whileRule r) := by
  refine Locates.advance.bind fun _ => (condition_locates h _).bind fun _ => ?_
  exact h.stmt.bind fun _ => .pure _

theorem doRule_locates (h : r.Locate) : Locates (doRule r) := by
  refine Locates.advance.bind fun _ => h.stmt.bind fun _ => (Locates.expect _ _).bind fun _ => ?_
  exact (condition_locates h _).bind fun _ => .pure _

theorem forEachRest_locates (h : r.Locate) (traversal : Traversal) (position : Position) :
    Locates (forEachRest r traversal position) := by
  refine Locates.advance.bind fun _ => Locates.identifier.bind fun _ => ?_
  refine Locates.advance.bind fun _ => h.assignment.bind fun _ => ?_
  exact (Locates.expect _ _).bind fun _ => h.stmt.bind fun _ => .pure _

theorem loopInit_locates (h : r.Locate) : Locates (loopInit r) := by
  refine Locates.peek.bind fun token => ?_
  split
  · exact .pure _
  · exact (declaration_locates h).bind fun _ => .pure _
  · exact (declaration_locates h).bind fun _ => .pure _
  · exact h.assignment.bind fun _ => .pure _

theorem unlessAt_locates (sym : Symbol) {rule : Parse Expr} (h : Locates rule) :
    Locates (unlessAt sym rule) := by
  refine (Locates.check _).bind fun _ => ?_
  split
  · exact .pure _
  · exact h.bind fun _ => .pure _

theorem forRest_locates (h : r.Locate) (position : Position) : Locates (forRest r position) := by
  refine (loopInit_locates h).bind fun _ => (Locates.expect _ _).bind fun _ => ?_
  refine (unlessAt_locates _ h.assignment).bind fun _ => (Locates.expect _ _).bind fun _ => ?_
  refine (unlessAt_locates _ h.assignment).bind fun _ => (Locates.expect _ _).bind fun _ => ?_
  exact h.stmt.bind fun _ => .pure _

theorem forRule_locates (h : r.Locate) : Locates (forRule r) := by
  refine Locates.advance.bind fun _ => (Locates.expect _ _).bind fun _ => ?_
  refine Locates.get.bind fun _ => ?_
  split
  · exact forEachRest_locates h _ _
  · exact forRest_locates h _

theorem handler_locates (h : r.Locate) : Locates (handler r) := by
  refine Locates.peek.bind fun _ => (Locates.accept _).bind fun _ => ?_
  split
  · refine (Locates.expect _ _).bind fun _ => Locates.identifier.bind fun _ => ?_
    exact (Locates.expect _ _).bind fun _ => (block_locates h).bind fun _ => .pure _
  · exact .pure _

theorem cleanup_locates (h : r.Locate) : Locates (cleanup r) := by
  refine (Locates.accept _).bind fun _ => ?_
  split
  · exact (block_locates h).bind fun _ => .pure _
  · exact .pure _

theorem tryRule_locates (h : r.Locate) : Locates (tryRule r) := by
  intro c
  rw [tryRule, advance_bind]
  -- That the clauses are missing is seen behind the block, and the fault points back at the word.
  refine Located.bind ((block_locates h c.next).from_before (.next c)) fun body c₁ h₁ => ?_
  refine Located.bind ((handler_locates h c₁).from_before h₁) fun onError c₂ h₂ => ?_
  refine Located.bind ((cleanup_locates h c₂).from_before h₂) fun always c₃ h₃ => ?_
  split
  · exact .back rfl h₃
  · exact .ok h₃

theorem returnRule_locates (h : r.Locate) : Locates (returnRule r) := by
  refine Locates.advance.bind fun _ => Locates.peek.bind fun _ => ?_
  dsimp only
  split
  · exact .pure _
  · exact h.assignment.bind fun _ => .pure _

theorem throwRule_locates (h : r.Locate) : Locates (throwRule r) :=
  Locates.advance.bind fun _ => h.assignment.bind fun _ => .pure _

theorem functionStmt_locates (h : r.Locate) : Locates (functionStmt r) := by
  refine Locates.advance.bind fun _ => Locates.identifier.bind fun _ => ?_
  exact (functionRest_locates h _ _).bind fun _ => .pure _

theorem ended_locates {rule : Parse Stmt} (h : Locates rule) : Locates (ended rule) :=
  h.bind fun _ => (Locates.accept _).bind fun _ => .pure _

theorem exprStmt_locates (h : r.Locate) : Locates (exprStmt r) :=
  h.assignment.bind fun _ => .pure _

theorem stmtRule_locates (h : r.Locate) : Locates (stmtRule r) := by
  refine Locates.peek.bind fun token => ?_
  split
  · exact ended_locates (declaration_locates h)
  · exact ended_locates (declaration_locates h)
  · exact ifRule_locates h
  · exact whileRule_locates h
  · exact ended_locates (doRule_locates h)
  · exact forRule_locates h
  · exact tryRule_locates h
  · exact ended_locates (returnRule_locates h)
  · exact ended_locates (throwRule_locates h)
  · exact ended_locates (Locates.advance.bind fun _ => .pure _)
  · exact ended_locates (Locates.advance.bind fun _ => .pure _)
  · exact (block_locates h).bind fun _ => .pure _
  · refine Locates.get.bind fun _ => ?_
    split
    · exact functionStmt_locates h
    · exact ended_locates (exprStmt_locates h)
  · exact ended_locates (exprStmt_locates h)

/-- The rules of every depth locate their faults; beyond the last level the fault is where the rule
would begin. -/
theorem Rules.locate_atDepth (passes depth : Nat) : (Rules.atDepth passes depth).Locate := by
  induction depth with
  | zero => exact ⟨.tooDeep _, .tooDeep _, .tooDeep _, .tooDeep _⟩
  | succ depth ih =>
    exact ⟨stmtRule_locates ih, assignmentRule_locates ih, ternaryRule_locates ih,
      unaryRule_locates ih⟩

end Quill.Syntax
