import Quill.Proofs.Syntax.Indexed.Simulation

/-!
# Rule by rule

Every indexed rule simulates its rule of the grammar, given that the four counted rules do so one
level deeper. There is one lemma for each rule, in the order of the grammar. A token is passed only
where the rule has seen that it is no end of input, or the caller has; then the lemma carries the
kind of the token at the cursor.

A block ends although a statement is just another rule: a statement that the grammar reads is not
empty, by its soundness.
-/

set_option autoImplicit false

namespace Quill.Syntax.Indexed

variable {α : Type} {n depth : Nat} {c : Cursor} {R : Rules} {r : Syntax.Rules}

/-- The counted rules simulate those of the grammar, which has passes for all tokens. -/
structure Rules.Simulates (n depth : Nat) (R : Rules) (r : Syntax.Rules) : Prop where
  passes : n ≤ r.passes
  sound : r.Sound
  stmt : Indexed.Simulates n depth R.stmt r.stmt
  assignment : Indexed.Simulates n depth R.assignment r.assignment
  ternary : Indexed.Simulates n depth R.ternary r.ternary
  unary : Indexed.Simulates n depth R.unary r.unary

/-! ## Blocks and functions -/

theorem blockItem_pass (h : R.Simulates n depth r) (done : List Stmt) (c : Cursor) :
    Pass n depth c (blockItem R done) (Syntax.blockItem r done c) where
  follows := by
    refine .look (observes_check _) (.look observes_atEnd ?_)
    rw [Syntax.blockItem, Syntax.check_bind, Syntax.atEnd_bind]
    split
    · exact .pure
    · refine .accept trivial (fun _ => .pure) fun _ => ?_
      exact .bind (h.stmt c) fun _ _ _ _ => .pure
  ends hend := by
    rw [Syntax.blockItem, Syntax.check_bind, Syntax.atEnd_bind, Cursor.atEnd, hend,
      List.isEmpty_nil, Bool.or_true, if_pos rfl]
    rfl
  takes _ hout := by
    rw [Syntax.blockItem, Syntax.check_bind, Syntax.atEnd_bind] at hout
    split at hout
    · cases hout
    · rcases of_accept_bind hout with ⟨hsemi, hout⟩ | ⟨-, hout⟩
      · cases hout
        exact length_lt_of_passable hsemi trivial
      · obtain ⟨stmt, c₁, hstmt, hout⟩ := of_bind_eq_ok hout
        cases hout
        exact stmt_length_lt h.sound hstmt

theorem block_simulates (h : R.Simulates n depth r) :
    Simulates n depth (block R) (Syntax.block r) := by
  intro c
  refine .bind (expect_follows trivial) fun _ _ _ _ => ?_
  refine .bind (extend_follows (blockItem_pass h) h.passes _) fun _ _ _ _ => ?_
  exact .bind (expect_follows trivial) fun _ _ _ _ => .pure

theorem params_simulates (h : R.Simulates n depth r) :
    Simulates n depth params (Syntax.params r) :=
  fun _ => commaList_follows (fun c _ => identifier_simulates c) h.passes

theorem functionRest_simulates (h : R.Simulates n depth r) (name : Option String)
    (position : Position) :
    Simulates n depth (functionRest R name position) (Syntax.functionRest r name position) := by
  intro c
  refine .bind (expect_follows trivial) fun _ _ _ _ => ?_
  refine .bind (params_simulates h _) fun _ _ _ _ => ?_
  refine .bind (expect_follows trivial) fun _ _ _ _ => ?_
  exact .bind (block_simulates h _) fun _ _ _ _ => .pure

theorem arrowBody_simulates (h : R.Simulates n depth r) :
    Simulates n depth (arrowBody R) (Syntax.arrowBody r) := by
  intro c
  refine .look (observes_check _) ?_
  rw [Syntax.arrowBody, Syntax.check_bind]
  split
  · exact .bind (block_simulates h _) fun _ _ _ _ => .pure
  · exact .bind (h.assignment _) fun _ _ _ _ => .pure

theorem arrowFunction_simulates (h : R.Simulates n depth r) :
    Simulates n depth (arrowFunction R) (Syntax.arrowFunction r) := by
  intro c
  refine .look observes_position ?_
  refine .bind (expect_follows trivial) fun _ _ _ _ => ?_
  refine .bind (params_simulates h _) fun _ _ _ _ => ?_
  refine .bind (expect_follows trivial) fun _ _ _ _ => ?_
  refine .bind (expect_follows trivial) fun _ _ _ _ => ?_
  exact .bind (arrowBody_simulates h _) fun _ _ _ _ => .pure

/-! ## Operands -/

theorem property_follows (h : R.Simulates n depth r) (hk : Passable c.current.kind) :
    Follows n depth c (property R) (Syntax.property r c) := by
  refine .step (advance_follows rfl hk) ?_
  rw [Syntax.property, Syntax.advance_bind]
  cases propertyKey? c.current with
  | none => exact .failAt
  | some key =>
    refine .look (observes_check _) (.look (observes_check _) ?_)
    simp only [Syntax.check_bind]
    split
    · exact .pure
    · refine .bind (expect_follows trivial) fun _ _ _ _ => ?_
      exact .bind (h.assignment _) fun _ _ _ _ => .pure

theorem objectLiteral_simulates (h : R.Simulates n depth r) :
    Simulates n depth (objectLiteral R) (Syntax.objectLiteral r) := by
  intro c
  refine .look observes_position ?_
  refine .bind (expect_follows trivial) fun _ _ _ _ => ?_
  refine .bind (commaList_follows (fun _ => property_follows h) h.passes) fun _ _ _ _ => ?_
  exact .bind (expect_follows trivial) fun _ _ _ _ => .pure

theorem arrayLiteral_follows (h : R.Simulates n depth r)
    (hopen : c.current.kind = .symbol .leftBracket) :
    Follows n depth c (arrayLiteral R) (Syntax.arrayLiteral r c) := by
  refine .step (advance_follows hopen trivial) ?_
  refine .bind (commaList_follows (fun c _ => h.assignment c) h.passes) fun _ _ _ _ => ?_
  exact .bind (expect_follows trivial) fun _ _ _ _ => .pure

theorem parenthesized_follows (h : R.Simulates n depth r)
    (hopen : c.current.kind = .symbol .leftParen) :
    Follows n depth c (parenthesized R) (Syntax.parenthesized r c) := by
  refine .look (observes_arrowStart hopen) ?_
  rw [Syntax.parenthesized, Syntax.get_bind]
  split
  · exact arrowFunction_simulates h c
  · refine .step (advance_follows hopen trivial) ?_
    refine .bind (h.assignment _) fun _ _ _ _ => ?_
    exact .bind (expect_follows trivial) fun _ _ _ _ => .pure

theorem nameOrArrow_follows (h : R.Simulates n depth r) {name : String}
    (hname : c.current.kind = .ident name) :
    Follows n depth c (nameOrArrow R name) (Syntax.nameOrArrow r name c) := by
  refine .step (advance_follows hname trivial) ?_
  refine .accept trivial (fun _ => ?_) fun _ => .pure
  exact .bind (arrowBody_simulates h _) fun _ _ _ _ => .pure

theorem functionExpr_follows (h : R.Simulates n depth r)
    (hword : c.current.kind = .keyword .functionKw) :
    Follows n depth c (functionExpr R) (Syntax.functionExpr r c) := by
  refine .step (advance_follows hword trivial) (.look observes_kind ?_)
  rw [Syntax.functionExpr, Syntax.advance_bind, Syntax.peek_bind]
  cases hkind : c.next.current.kind with
  | ident name =>
    refine .step (advance_follows hkind trivial) ?_
    exact .bind (functionRest_simulates h _ _ _) fun _ _ _ _ => .pure
  | _ => exact .bind (functionRest_simulates h _ _ _) fun _ _ _ _ => .pure

theorem primary_simulates (h : R.Simulates n depth r) :
    Simulates n depth (primary R) (Syntax.primary r) := by
  intro c
  refine .look observes_position (.look observes_kind ?_)
  rw [Syntax.primary, Syntax.peek_bind]
  cases hkind : c.current.kind with
  | number value => exact .step (advance_follows hkind trivial) .pure
  | string value => exact .step (advance_follows hkind trivial) .pure
  | bool value => exact .step (advance_follows hkind trivial) .pure
  | null => exact .step (advance_follows hkind trivial) .pure
  | ident name => exact nameOrArrow_follows h hkind
  | symbol sym =>
    cases sym with
    | leftParen => exact parenthesized_follows h hkind
    | leftBracket => exact arrayLiteral_follows h hkind
    | leftBrace => exact objectLiteral_simulates h c
    | _ => exact unexpected_follows
  | keyword word =>
    cases word with
    | functionKw => exact functionExpr_follows h hkind
    | _ => exact unexpected_follows
  | _ => exact unexpected_follows

/-! ## What follows an operand -/

theorem suffix_pass (h : R.Simulates n depth r) (operand : Expr) (c : Cursor) :
    Pass n depth c (suffix R operand) (Syntax.suffix r operand c) := by
  refine .look observes_kind ?_
  rw [Syntax.suffix, Syntax.peek_bind]
  cases hkind : c.current.kind with
  | symbol sym =>
    cases sym with
    | leftParen =>
      refine .go hkind trivial ?_
      refine .bind (commaList_follows (fun c _ => h.assignment c) h.passes) fun _ _ _ _ => ?_
      exact .bind (expect_follows trivial) fun _ _ _ _ => .pure
    | dot | questionDot =>
      refine .go hkind trivial ?_
      exact .bind (propertyName_simulates _) fun _ _ _ _ => .pure
    | leftBracket =>
      refine .go hkind trivial ?_
      refine .bind (h.assignment _) fun _ _ _ _ => ?_
      exact .bind (expect_follows trivial) fun _ _ _ _ => .pure
    | plusPlus | minusMinus =>
      refine .look observes_onPreviousLine ?_
      simp only [updateOp?, Syntax.get_bind]
      split
      · exact .go hkind trivial .pure
      · exact .stop
    | _ => exact .stop
  | _ => exact .stop

theorem suffixed_simulates (h : R.Simulates n depth r) :
    Simulates n depth (suffixed R) (Syntax.suffixed r) := by
  intro c
  refine .bind (primary_simulates h c) fun _ _ _ _ => ?_
  exact extend_follows (suffix_pass h) h.passes _

/-! ## Operators -/

theorem unaryRule_simulates (h : R.Simulates n depth r) :
    Simulates n depth (unaryRule R) (Syntax.unaryRule r) := by
  intro c
  refine .look observes_position (.look observes_kind ?_)
  rw [Syntax.unaryRule, Syntax.peek_bind]
  cases hkind : c.current.kind with
  | symbol sym =>
    cases sym with
    | minus | bang | plusPlus | minusMinus =>
      refine .step (advance_follows hkind trivial) ?_
      exact .bind (h.unary _) fun _ _ _ _ => .pure
    | _ => exact suffixed_simulates h c
  | _ => exact suffixed_simulates h c

theorem infixStep_pass (row : List (Symbol × InfixOp)) {operand : Read Expr}
    {operand' : Parse Expr} (hoperand : Simulates n depth operand operand') (left : Expr)
    (c : Cursor) :
    Pass n depth c (infixStep row operand left) (Syntax.infixStep row operand' left c) := by
  refine .look observes_kind ?_
  rw [Syntax.infixStep, Syntax.peek_bind]
  cases hop : infixOp? row c.current.kind with
  | none => exact .stop
  | some op =>
    obtain ⟨sym, hkind, -⟩ := mem_of_infixOp? hop
    refine .go hkind trivial ?_
    exact .bind (hoperand _) fun _ _ _ _ => .pure

theorem infixRule_simulates (h : R.Simulates n depth r) (rows : List (List (Symbol × InfixOp))) :
    Simulates n depth (infixRule R rows) (Syntax.infixRule r rows) := by
  induction rows with
  | nil => exact unaryRule_simulates h
  | cons row tighter ih =>
    intro c
    refine .bind (ih c) fun _ _ _ _ => ?_
    exact extend_follows (infixStep_pass row ih) h.passes _

theorem ternaryRule_simulates (h : R.Simulates n depth r) :
    Simulates n depth (ternaryRule R) (Syntax.ternaryRule r) := by
  intro c
  refine .bind (infixRule_simulates h _ c) fun _ _ _ _ => ?_
  refine .accept trivial (fun _ => ?_) fun _ => .pure
  refine .bind (h.assignment _) fun _ _ _ _ => ?_
  refine .bind (expect_follows trivial) fun _ _ _ _ => ?_
  exact .bind (h.ternary _) fun _ _ _ _ => .pure

theorem assignmentRest_follows (h : R.Simulates n depth r) (target : Expr) (build : Expr → Expr)
    (hk : Passable c.current.kind) :
    Follows n depth c (assignmentRest R target build) (Syntax.assignmentRest r target build c) := by
  refine .step (advance_follows rfl hk) ?_
  rw [Syntax.assignmentRest, Syntax.advance_bind]
  split
  · exact .bind (h.assignment _) fun _ _ _ _ => .pure
  · exact .failAt

theorem assignmentRule_simulates (h : R.Simulates n depth r) :
    Simulates n depth (assignmentRule R) (Syntax.assignmentRule r) := by
  intro c
  refine .bind (ternaryRule_simulates h c) fun target c' _ _ => ?_
  refine .look observes_kind ?_
  rw [Syntax.peek_bind]
  split
  · next hassign => exact assignmentRest_follows h _ _ (hassign ▸ trivial)
  · cases hop : compoundOp? c'.current.kind with
    | none => exact .pure
    | some op =>
      refine assignmentRest_follows h _ _ (passable_iff.mpr fun heof => ?_)
      rw [heof] at hop
      cases hop

/-! ## Statements -/

theorem declaration_follows (h : R.Simulates n depth r) {k : TokenKind}
    (hkind : c.current.kind = k) (hk : Passable k) :
    Follows n depth c (declaration R) (Syntax.declaration r c) := by
  refine .step (advance_follows hkind hk) ?_
  rw [Syntax.declaration, Syntax.advance_bind]
  refine .bind (identifier_simulates _) fun _ _ _ _ => ?_
  split
  · refine .bind (expect_follows trivial) fun _ _ _ _ => ?_
    exact .bind (h.assignment _) fun _ _ _ _ => .pure
  · refine .accept trivial (fun _ => ?_) fun _ => .pure
    exact .bind (h.assignment _) fun _ _ _ _ => .pure

theorem condition_simulates (h : R.Simulates n depth r) (word : Keyword) :
    Simulates n depth (condition R word) (Syntax.condition r word) := by
  intro c
  refine .bind (expect_follows trivial) fun _ _ _ _ => ?_
  refine .bind (h.assignment _) fun _ _ _ _ => ?_
  exact .bind (expect_follows trivial) fun _ _ _ _ => .pure

theorem ifRule_follows (h : R.Simulates n depth r) (hword : c.current.kind = .keyword .ifKw) :
    Follows n depth c (ifRule R) (Syntax.ifRule r c) := by
  refine .step (advance_follows hword trivial) ?_
  refine .bind (condition_simulates h _ _) fun _ _ _ _ => ?_
  refine .bind (h.stmt _) fun _ _ _ _ => ?_
  refine .accept trivial (fun _ => ?_) fun _ => .pure
  exact .bind (h.stmt _) fun _ _ _ _ => .pure

theorem whileRule_follows (h : R.Simulates n depth r)
    (hword : c.current.kind = .keyword .whileKw) :
    Follows n depth c (whileRule R) (Syntax.whileRule r c) := by
  refine .step (advance_follows hword trivial) ?_
  refine .bind (condition_simulates h _ _) fun _ _ _ _ => ?_
  exact .bind (h.stmt _) fun _ _ _ _ => .pure

theorem doRule_follows (h : R.Simulates n depth r) (hword : c.current.kind = .keyword .doKw) :
    Follows n depth c (doRule R) (Syntax.doRule r c) := by
  refine .step (advance_follows hword trivial) ?_
  refine .bind (h.stmt _) fun _ _ _ _ => ?_
  refine .bind (expect_follows trivial) fun _ _ _ _ => ?_
  exact .bind (condition_simulates h _ _) fun _ _ _ _ => .pure

/-- The word between the variable and the container was seen ahead, so it is passed unseen. -/
theorem forEachRest_follows (h : R.Simulates n depth r) {traversal : Traversal}
    (position : Position) (hahead : traversalAhead? c = some traversal) :
    Follows n depth c (forEachRest R traversal position)
      (Syntax.forEachRest r traversal position c) := by
  obtain ⟨constant, name, hdeclare, hname, hover⟩ := traversalAhead?_eq_some hahead
  refine .step (advance_follows hdeclare trivial) ?_
  refine .bind (identifier_simulates _) fun given c₁ hgiven _ => ?_
  obtain ⟨-, rfl⟩ := of_identifier_eq_ok hgiven
  refine .step (advance_follows rfl (passable_iff.mpr hover.kind_ne_eof)) ?_
  refine .bind (h.assignment _) fun _ _ _ _ => ?_
  refine .bind (expect_follows trivial) fun _ _ _ _ => ?_
  exact .bind (h.stmt _) fun _ _ _ _ => .pure

theorem loopInit_simulates (h : R.Simulates n depth r) :
    Simulates n depth (loopInit R) (Syntax.loopInit r) := by
  intro c
  refine .look observes_kind ?_
  rw [Syntax.loopInit, Syntax.peek_bind]
  cases hkind : c.current.kind with
  | symbol sym =>
    cases sym with
    | semicolon => exact .pure
    | _ => exact .bind (h.assignment _) fun _ _ _ _ => .pure
  | keyword word =>
    cases word with
    | letKw | constKw => exact .bind (declaration_follows h hkind trivial) fun _ _ _ _ => .pure
    | _ => exact .bind (h.assignment _) fun _ _ _ _ => .pure
  | _ => exact .bind (h.assignment _) fun _ _ _ _ => .pure

theorem unlessAt_simulates {rule : Read Expr} {rule' : Parse Expr}
    (hrule : Simulates n depth rule rule') (sym : Symbol) :
    Simulates n depth (unlessAt sym rule) (Syntax.unlessAt sym rule') := by
  intro c
  refine .look (observes_check _) ?_
  rw [Syntax.unlessAt, Syntax.check_bind]
  split
  · exact .pure
  · exact .bind (hrule _) fun _ _ _ _ => .pure

theorem forRest_simulates (h : R.Simulates n depth r) (position : Position) :
    Simulates n depth (forRest R position) (Syntax.forRest r position) := by
  intro c
  refine .bind (loopInit_simulates h _) fun _ _ _ _ => ?_
  refine .bind (expect_follows trivial) fun _ _ _ _ => ?_
  refine .bind (unlessAt_simulates h.assignment _ _) fun _ _ _ _ => ?_
  refine .bind (expect_follows trivial) fun _ _ _ _ => ?_
  refine .bind (unlessAt_simulates h.assignment _ _) fun _ _ _ _ => ?_
  refine .bind (expect_follows trivial) fun _ _ _ _ => ?_
  exact .bind (h.stmt _) fun _ _ _ _ => .pure

theorem forRule_follows (h : R.Simulates n depth r) (hword : c.current.kind = .keyword .forKw) :
    Follows n depth c (forRule R) (Syntax.forRule r c) := by
  refine .step (advance_follows hword trivial) ?_
  refine .bind (expect_follows trivial) fun _ c₁ _ _ => ?_
  refine .look observes_traversalAhead ?_
  rw [Syntax.get_bind]
  cases hahead : traversalAhead? c₁ with
  | some traversal => exact forEachRest_follows h _ hahead
  | none => exact forRest_simulates h _ _

theorem handler_simulates (h : R.Simulates n depth r) :
    Simulates n depth (handler R) (Syntax.handler r) := by
  intro c
  refine .look observes_position ?_
  refine .accept trivial (fun _ => ?_) fun _ => .pure
  refine .bind (expect_follows trivial) fun _ _ _ _ => ?_
  refine .bind (identifier_simulates _) fun _ _ _ _ => ?_
  refine .bind (expect_follows trivial) fun _ _ _ _ => ?_
  exact .bind (block_simulates h _) fun _ _ _ _ => .pure

theorem cleanup_simulates (h : R.Simulates n depth r) :
    Simulates n depth (cleanup R) (Syntax.cleanup r) := by
  intro c
  refine .accept trivial (fun _ => ?_) fun _ => .pure
  exact .bind (block_simulates h _) fun _ _ _ _ => .pure

theorem tryRule_follows (h : R.Simulates n depth r) (hword : c.current.kind = .keyword .tryKw) :
    Follows n depth c (tryRule R) (Syntax.tryRule r c) := by
  refine .step (advance_follows hword trivial) ?_
  refine .bind (block_simulates h _) fun _ _ _ _ => ?_
  refine .bind (handler_simulates h _) fun _ _ _ _ => ?_
  refine .bind (cleanup_simulates h _) fun _ _ _ _ => ?_
  split
  · exact .failAt
  · exact .pure

theorem returnRule_follows (h : R.Simulates n depth r)
    (hword : c.current.kind = .keyword .returnKw) :
    Follows n depth c (returnRule R) (Syntax.returnRule r c) := by
  refine .step (advance_follows hword trivial) (.look observes_kind ?_)
  simp only [Syntax.returnRule, Syntax.advance_bind, Syntax.peek_bind]
  split
  · exact .pure
  · exact .bind (h.assignment _) fun _ _ _ _ => .pure

theorem throwRule_follows (h : R.Simulates n depth r)
    (hword : c.current.kind = .keyword .throwKw) :
    Follows n depth c (throwRule R) (Syntax.throwRule r c) := by
  refine .step (advance_follows hword trivial) ?_
  exact .bind (h.assignment _) fun _ _ _ _ => .pure

theorem functionStmt_follows (h : R.Simulates n depth r)
    (hword : c.current.kind = .keyword .functionKw) :
    Follows n depth c (functionStmt R) (Syntax.functionStmt r c) := by
  refine .step (advance_follows hword trivial) ?_
  refine .bind (identifier_simulates _) fun _ _ _ _ => ?_
  exact .bind (functionRest_simulates h _ _ _) fun _ _ _ _ => .pure

theorem ended_follows {rule : Read Stmt} {rule' : Parse Stmt}
    (hrule : Follows n depth c rule (rule' c)) :
    Follows n depth c (ended rule) (Syntax.ended rule' c) := by
  refine .bind hrule fun _ _ _ _ => ?_
  exact .accept trivial (fun _ => .pure) fun _ => .pure

theorem exprStmt_simulates (h : R.Simulates n depth r) :
    Simulates n depth (exprStmt R) (Syntax.exprStmt r) :=
  fun _ => .bind (h.assignment _) fun _ _ _ _ => .pure

theorem stmtRule_simulates (h : R.Simulates n depth r) :
    Simulates n depth (stmtRule R) (Syntax.stmtRule r) := by
  intro c
  refine .look observes_position (.look observes_kind ?_)
  rw [Syntax.stmtRule, Syntax.peek_bind]
  cases hkind : c.current.kind with
  | keyword word =>
    cases word with
    | letKw | constKw => exact ended_follows (declaration_follows h hkind trivial)
    | ifKw => exact ifRule_follows h hkind
    | whileKw => exact whileRule_follows h hkind
    | doKw => exact ended_follows (doRule_follows h hkind)
    | forKw => exact forRule_follows h hkind
    | tryKw => exact tryRule_follows h hkind
    | returnKw => exact ended_follows (returnRule_follows h hkind)
    | throwKw => exact ended_follows (throwRule_follows h hkind)
    | breakKw | continueKw => exact ended_follows (.step (advance_follows hkind trivial) .pure)
    | functionKw =>
      have hone : 0 < c.rest.length :=
        lt_length_of_kindAt_ne (by simp [hkind])
      refine .look (observes_kindAt hone) ?_
      simp only [Syntax.get_bind]
      cases c.kindAt 1 with
      | ident name => exact functionStmt_follows h hkind
      | _ => exact ended_follows (exprStmt_simulates h c)
    | _ => exact ended_follows (exprStmt_simulates h c)
  | symbol sym =>
    cases sym with
    | leftBrace => exact .bind (block_simulates h c) fun _ _ _ _ => .pure
    | _ => exact ended_follows (exprStmt_simulates h c)
  | _ => exact ended_follows (exprStmt_simulates h c)

end Quill.Syntax.Indexed
