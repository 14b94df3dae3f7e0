import Quill.Proofs.Syntax.Soundness.Expr

/-!
# Programs that parse are derived

The rules of statements yield what the grammar derives, given the rules of expressions. Then the
knot: sound rules one level deeper make sound rules, and beyond the last level nothing succeeds, so
the rules of every depth are sound. A program without diagnostics is a chain of successful
statements with semicolons between them, and each takes a token, so the passes do not run out.
-/

set_option autoImplicit false

namespace Quill.Syntax

variable {c c' : Cursor} {r : Rules}

/-! ## Statements -/

theorem DeclarationWord.beq_constKw {t : Token} {constant : Bool} (h : DeclarationWord t constant) :
    (t.kind == .keyword .constKw) = constant := by
  rw [h]
  cases constant <;> rfl

theorem spells_of_declaration (hr : r.Sound) {constant : Bool} {stmt : Stmt}
    (hword : DeclarationWord c.current constant) (h : declaration r c = .ok stmt c') :
    c.Spells Declaration stmt c' := by
  simp only [declaration, advance_bind] at h
  obtain ⟨name, hname, h⟩ := of_identifier_bind h
  rw [hword.beq_constKw] at h
  cases constant with
  | true =>
    obtain ⟨heq, h⟩ := of_expect_bind h
    obtain ⟨init, c₂, ts, hts, d, h⟩ := hr.assignment.of_bind h
    cases h
    exact ⟨_, .cons hword nofun (.cons hname nofun (.cons heq nofun hts)),
      .initialized hword hname heq d⟩
  | false =>
    rcases of_accept_bind h with ⟨heq, h⟩ | ⟨-, h⟩
    · obtain ⟨init, c₂, ts, hts, d, h⟩ := hr.assignment.of_bind h
      cases h
      exact ⟨_, .cons hword nofun (.cons hname nofun (.cons heq nofun hts)),
        .initialized hword hname heq d⟩
    · cases h
      exact ⟨_, .cons hword nofun (.next hname nofun), .bare hword hname⟩

theorem condition_yields (hr : r.Sound) (word : Keyword) : Yields (condition r word) Condition := by
  intro c test c' h
  obtain ⟨hopen, h⟩ := of_expect_bind h
  obtain ⟨test, c₁, ts, hts, d, h⟩ := hr.assignment.of_bind h
  obtain ⟨hclose, h⟩ := of_expect_bind h
  cases h
  exact ⟨_, .cons hopen nofun (hts.trans (.next hclose nofun)), .mk hopen d hclose⟩

theorem spells_of_ifRule (hr : r.Sound) {stmt : Stmt} (hword : c.current.kind = .keyword .ifKw)
    (h : ifRule r c = .ok stmt c') : c.Spells Statement stmt c' := by
  simp only [ifRule, advance_bind] at h
  obtain ⟨test, c₁, cs, hcs, dtest, h⟩ := (condition_yields hr _).of_bind h
  obtain ⟨whenTrue, c₂, ts, hts, dtrue, h⟩ := hr.stmt.of_bind h
  rcases of_accept_bind h with ⟨helse, h⟩ | ⟨-, h⟩
  · obtain ⟨whenFalse, c₃, fs, hfs, dfalse, h⟩ := hr.stmt.of_bind h
    cases h
    exact ⟨_, .cons hword nofun (hcs.trans (hts.trans (.cons helse nofun hfs))),
      .ifElse hword dtest dtrue helse dfalse⟩
  · cases h
    exact ⟨_, .cons hword nofun (hcs.trans hts), .ifOnly hword dtest dtrue⟩

theorem spells_of_whileRule (hr : r.Sound) {stmt : Stmt}
    (hword : c.current.kind = .keyword .whileKw) (h : whileRule r c = .ok stmt c') :
    c.Spells Statement stmt c' := by
  simp only [whileRule, advance_bind] at h
  obtain ⟨test, c₁, cs, hcs, dtest, h⟩ := (condition_yields hr _).of_bind h
  obtain ⟨body, c₂, ts, hts, dbody, h⟩ := hr.stmt.of_bind h
  cases h
  exact ⟨_, .cons hword nofun (hcs.trans hts), .whileLoop hword dtest dbody⟩

/-- A statement that a semicolon may still end. -/
def Unended (ts : List Token) (stmt : Stmt) : Prop :=
  ∀ semi, OptionalSemicolon semi → Statement (ts ++ semi) stmt

theorem spells_of_ended {rule : Parse Stmt} {stmt : Stmt}
    (hrule : ∀ {c₁ : Cursor}, rule c = .ok stmt c₁ → c.Spells Unended stmt c₁)
    (h : ended rule c = .ok stmt c') : c.Spells Statement stmt c' := by
  obtain ⟨stmt, c₁, hstmt, h⟩ := of_bind_eq_ok h
  rcases of_accept_bind h with ⟨hsemi, h⟩ | ⟨-, h⟩
  · cases h
    obtain ⟨ts, hts, d⟩ := hrule hstmt
    exact ⟨_, hts.trans (.next hsemi nofun), d _ (.inr ⟨_, hsemi, rfl⟩)⟩
  · cases h
    obtain ⟨ts, hts, d⟩ := hrule hstmt
    exact ⟨ts, hts, by simpa using d [] (.inl rfl)⟩

theorem spells_of_doRule (hr : r.Sound) {stmt : Stmt} (hword : c.current.kind = .keyword .doKw)
    (h : doRule r c = .ok stmt c') : c.Spells Unended stmt c' := by
  simp only [doRule, advance_bind] at h
  obtain ⟨body, c₁, ts, hts, dbody, h⟩ := hr.stmt.of_bind h
  obtain ⟨hwhile, h⟩ := of_expect_bind h
  obtain ⟨test, c₂, cs, hcs, dtest, h⟩ := (condition_yields hr _).of_bind h
  cases h
  exact ⟨_, .cons hword nofun (hts.trans (.cons hwhile nofun hcs)),
    fun semi hsemi => .doWhile hword dbody hwhile dtest hsemi⟩

theorem spells_of_returnRule (hr : r.Sound) {stmt : Stmt}
    (hword : c.current.kind = .keyword .returnKw) (h : returnRule r c = .ok stmt c') :
    c.Spells Unended stmt c' := by
  simp only [returnRule, advance_bind, peek_bind] at h
  split at h
  · cases h
    exact ⟨_, .next hword nofun, fun semi hsemi => .ret hword .none hsemi⟩
  · obtain ⟨value, c₁, ts, hts, d, h⟩ := hr.assignment.of_bind h
    cases h
    exact ⟨_, .cons hword nofun hts, fun semi hsemi => .ret hword (.some d) hsemi⟩

theorem spells_of_throwRule (hr : r.Sound) {stmt : Stmt}
    (hword : c.current.kind = .keyword .throwKw) (h : throwRule r c = .ok stmt c') :
    c.Spells Unended stmt c' := by
  simp only [throwRule, advance_bind] at h
  obtain ⟨value, c₁, ts, hts, d, h⟩ := hr.assignment.of_bind h
  cases h
  exact ⟨_, .cons hword nofun hts, fun semi hsemi => .throw hword d hsemi⟩

theorem spells_of_exprStmt (hr : r.Sound) {stmt : Stmt} (h : exprStmt r c = .ok stmt c') :
    c.Spells Unended stmt c' := by
  obtain ⟨e, c₁, ts, hts, d, h⟩ := hr.assignment.of_bind h
  cases h
  exact ⟨ts, hts, fun semi hsemi => .expr d hsemi⟩

theorem Declaration.unended {ts : List Token} {stmt : Stmt} (h : Declaration ts stmt) :
    Unended ts stmt :=
  fun _ hsemi => .declaration h hsemi

/-! ## Loops -/

/-- The three tokens that tell a `for` over a container. -/
theorem traversalAhead?_eq_some {traversal : Traversal} (h : traversalAhead? c = some traversal) :
    ∃ constant name, DeclarationWord c.current constant ∧ c.next.current.kind = .ident name ∧
      TraversalWord c.next.next.current traversal := by
  simp only [traversalAhead?, Cursor.kindAt_succ, Cursor.kindAt_zero] at h
  split at h
  · next hword hname hover =>
    cases h
    exact ⟨false, _, hword, hname, hover⟩
  · next hword hname hover =>
    cases h
    exact ⟨true, _, hword, hname, hover⟩
  · next hword hname hover =>
    cases h
    exact ⟨false, _, hword, hname, hover⟩
  · next hword hname hover =>
    cases h
    exact ⟨true, _, hword, hname, hover⟩
  · cases h

theorem TraversalWord.kind_ne_eof {t : Token} {traversal : Traversal}
    (h : TraversalWord t traversal) : t.kind ≠ .eof := by
  cases traversal <;> simp [show t.kind = _ from h]

/-- The words that were seen ahead are passed unseen. -/
theorem spells_of_forEachRest (hr : r.Sound) {word opening : Token} {traversal : Traversal}
    {stmt : Stmt} (hword : word.kind = .keyword .forKw) (hopen : opening.kind = .symbol .leftParen)
    (hahead : traversalAhead? c = some traversal)
    (h : forEachRest r traversal word.position c = .ok stmt c') :
    c.Spells (fun ts => Statement (word :: opening :: ts)) stmt c' := by
  obtain ⟨constant, name, hdeclare, hname, hover⟩ := traversalAhead?_eq_some hahead
  simp only [forEachRest, advance_bind] at h
  obtain ⟨given, hgiven, h⟩ := of_identifier_bind h
  simp only [advance_bind] at h
  obtain ⟨subject, c₁, ss, hss, dsubject, h⟩ := hr.assignment.of_bind h
  obtain ⟨hclose, h⟩ := of_expect_bind h
  obtain ⟨body, c₂, bs, hbs, dbody, h⟩ := hr.stmt.of_bind h
  rw [hdeclare.beq_constKw] at h
  cases h
  have hrest := Cursor.Passes.cons rfl hover.kind_ne_eof (hss.trans (.cons hclose nofun hbs))
  exact ⟨_, .cons hdeclare nofun (.cons hgiven nofun hrest),
    .forEach hword hopen hdeclare hgiven hover dsubject hclose dbody⟩

theorem loopInit_yields (hr : r.Sound) : Yields (loopInit r) LoopInit := by
  intro c init c' h
  simp only [loopInit, peek_bind] at h
  generalize hkind : c.current.kind = kind at h
  split at h
  · cases h
    exact ⟨[], .refl _, .none⟩
  · have hword : DeclarationWord c.current false := hkind
    obtain ⟨stmt, c₁, hstmt, h⟩ := of_bind_eq_ok h
    obtain ⟨ts, hts, d⟩ := spells_of_declaration hr hword hstmt
    cases h
    exact ⟨ts, hts, .declaration d⟩
  · have hword : DeclarationWord c.current true := hkind
    obtain ⟨stmt, c₁, hstmt, h⟩ := of_bind_eq_ok h
    obtain ⟨ts, hts, d⟩ := spells_of_declaration hr hword hstmt
    cases h
    exact ⟨ts, hts, .declaration d⟩
  · obtain ⟨e, c₁, ts, hts, d, h⟩ := hr.assignment.of_bind h
    cases h
    exact ⟨ts, hts, .expr d⟩

theorem unlessAt_yields (hr : r.Sound) (sym : Symbol) :
    Yields (unlessAt sym r.assignment) OptionalExpr := by
  intro c e c' h
  simp only [unlessAt, check_bind] at h
  split at h
  · cases h
    exact ⟨[], .refl _, .none⟩
  · obtain ⟨e, c₁, ts, hts, d, h⟩ := hr.assignment.of_bind h
    cases h
    exact ⟨ts, hts, .some d⟩

theorem spells_of_forRest (hr : r.Sound) {word opening : Token} {stmt : Stmt}
    (hword : word.kind = .keyword .forKw) (hopen : opening.kind = .symbol .leftParen)
    (h : forRest r word.position c = .ok stmt c') :
    c.Spells (fun ts => Statement (word :: opening :: ts)) stmt c' := by
  obtain ⟨init, c₁, is, his, dinit, h⟩ := (loopInit_yields hr).of_bind h
  obtain ⟨hsemi₁, h⟩ := of_expect_bind h
  obtain ⟨test, c₂, cs, hcs, dtest, h⟩ := (unlessAt_yields hr _).of_bind h
  obtain ⟨hsemi₂, h⟩ := of_expect_bind h
  obtain ⟨update, c₃, us, hus, dupdate, h⟩ := (unlessAt_yields hr _).of_bind h
  obtain ⟨hclose, h⟩ := of_expect_bind h
  obtain ⟨body, c₄, bs, hbs, dbody, h⟩ := hr.stmt.of_bind h
  cases h
  have hclauses := hcs.trans (.cons hsemi₂ nofun (hus.trans (.cons hclose nofun hbs)))
  exact ⟨_, his.trans (.cons hsemi₁ nofun hclauses),
    .forLoop hword hopen dinit hsemi₁ dtest hsemi₂ dupdate hclose dbody⟩

theorem spells_of_forRule (hr : r.Sound) {stmt : Stmt} (hword : c.current.kind = .keyword .forKw)
    (h : forRule r c = .ok stmt c') : c.Spells Statement stmt c' := by
  simp only [forRule, advance_bind] at h
  obtain ⟨hopen, h⟩ := of_expect_bind h
  simp only [get_bind] at h
  have hrest : c.next.next.Spells
      (fun ts => Statement (c.current :: c.next.current :: ts)) stmt c' := by
    cases hahead : traversalAhead? c.next.next with
    | some traversal =>
      rw [hahead] at h
      exact spells_of_forEachRest hr hword hopen hahead h
    | none =>
      rw [hahead] at h
      exact spells_of_forRest hr hword hopen h
  obtain ⟨ts, hts, d⟩ := hrest
  exact ⟨_, .cons hword nofun (.cons hopen nofun hts), d⟩

/-! ## Faults -/

theorem handler_yields (hr : r.Sound) : Yields (handler r) CatchClause := by
  intro c clause c' h
  simp only [handler, peek_bind] at h
  rcases of_accept_bind h with ⟨hword, h⟩ | ⟨-, h⟩
  · obtain ⟨hopen, h⟩ := of_expect_bind h
    obtain ⟨param, hparam, h⟩ := of_identifier_bind h
    obtain ⟨hclose, h⟩ := of_expect_bind h
    obtain ⟨body, c₁, bs, hbs, dbody, h⟩ := (block_yields hr).of_bind h
    cases h
    exact ⟨_, .cons hword nofun (.cons hopen nofun (.cons hparam nofun (.cons hclose nofun hbs))),
      .some hword hopen hparam hclose dbody⟩
  · cases h
    exact ⟨[], .refl _, .none⟩

theorem cleanup_yields (hr : r.Sound) : Yields (cleanup r) FinallyClause := by
  intro c clause c' h
  rcases of_accept_bind h with ⟨hword, h⟩ | ⟨-, h⟩
  · obtain ⟨body, c₁, bs, hbs, dbody, h⟩ := (block_yields hr).of_bind h
    cases h
    exact ⟨_, .cons hword nofun hbs, .some hword dbody⟩
  · cases h
    exact ⟨[], .refl _, .none⟩

theorem spells_of_tryRule (hr : r.Sound) {stmt : Stmt} (hword : c.current.kind = .keyword .tryKw)
    (h : tryRule r c = .ok stmt c') : c.Spells Statement stmt c' := by
  simp only [tryRule, advance_bind] at h
  obtain ⟨body, c₁, bs, hbs, dbody, h⟩ := (block_yields hr).of_bind h
  obtain ⟨onError, c₂, hs, hhs, dhandler, h⟩ := (handler_yields hr).of_bind h
  obtain ⟨always, c₃, fs, hfs, dcleanup, h⟩ := (cleanup_yields hr).of_bind h
  split at h
  · cases h
  · next hbare =>
    cases h
    have hclause : onError.isSome ∨ always.isSome := by
      cases onError <;> cases always <;> simp_all
    exact ⟨_, .cons hword nofun (hbs.trans (hhs.trans hfs)),
      .tryCatch hword dbody dhandler dcleanup hclause⟩

/-! ## The knot -/

theorem spells_of_functionStmt (hr : r.Sound) {stmt : Stmt}
    (hword : c.current.kind = .keyword .functionKw) (h : functionStmt r c = .ok stmt c') :
    c.Spells Statement stmt c' := by
  simp only [functionStmt, advance_bind] at h
  obtain ⟨name, hname, h⟩ := of_identifier_bind h
  obtain ⟨definition, c₁, fs, hfs, d, h⟩ := (functionRest_yields hr _ _).of_bind h
  cases h
  exact ⟨_, .cons hword nofun (.cons hname nofun hfs), .function hword hname d⟩

theorem stmtRule_yields (hr : r.Sound) : Yields (stmtRule r) Statement := by
  intro c stmt c' h
  simp only [stmtRule, peek_bind] at h
  generalize hkind : c.current.kind = kind at h
  split at h
  · have hword : DeclarationWord c.current false := hkind
    exact spells_of_ended (fun h => (spells_of_declaration hr hword h).mono fun _ d => d.unended) h
  · have hword : DeclarationWord c.current true := hkind
    exact spells_of_ended (fun h => (spells_of_declaration hr hword h).mono fun _ d => d.unended) h
  · exact spells_of_ifRule hr hkind h
  · exact spells_of_whileRule hr hkind h
  · exact spells_of_ended (spells_of_doRule hr hkind) h
  · exact spells_of_forRule hr hkind h
  · exact spells_of_tryRule hr hkind h
  · exact spells_of_ended (spells_of_returnRule hr hkind) h
  · exact spells_of_ended (spells_of_throwRule hr hkind) h
  · refine spells_of_ended (fun hbreak => ?_) h
    cases hbreak
    exact ⟨_, .next hkind nofun, fun semi hsemi => .breakLoop hkind hsemi⟩
  · refine spells_of_ended (fun hcontinue => ?_) h
    cases hcontinue
    exact ⟨_, .next hkind nofun, fun semi hsemi => .continueLoop hkind hsemi⟩
  · obtain ⟨stmts, c₁, _, hts, d, h⟩ := (block_yields hr).of_bind h
    cases h
    cases d with
    | mk hopen dstmts hclose =>
      rw [hts.current_eq]
      exact ⟨_, hts, .block (.mk hopen dstmts hclose)⟩
  · simp only [get_bind] at h
    -- Whichever way the token behind the word decides, the result is a statement.
    generalize c.kindAt 1 = kind at h
    split at h
    · exact spells_of_functionStmt hr hkind h
    · exact spells_of_ended (spells_of_exprStmt hr) h
  · exact spells_of_ended (spells_of_exprStmt hr) h

/-- The rules of every depth are sound: each level rests on the one below it. -/
theorem Rules.sound_atDepth (passes depth : Nat) : (Rules.atDepth passes depth).Sound := by
  induction depth with
  | zero =>
    constructor
    all_goals
      intro c a c' h
      cases h
  | succ depth ih =>
    exact ⟨stmtRule_yields ih, assignmentRule_yields ih, ternaryRule_yields ih, unaryRule_yields ih⟩

/-- A statement takes at least one token. -/
theorem stmt_length_lt (hr : r.Sound) {stmt : Stmt} (h : r.stmt c = .ok stmt c') :
    c'.rest.length < c.rest.length := by
  obtain ⟨ts, hts, d⟩ := hr.stmt h
  have hpos := List.length_pos_iff.mpr d.ne_nil
  have := hts.length_le
  omega

/-! ## Programs -/

/-- With a pass for every token, no token is left over. -/
theorem statements_derived (hr : r.Sound) {passes : Nat} (hpasses : c.rest.length ≤ passes)
    (h : (statements r passes c).diagnostics = []) :
    Statements c.rest (statements r passes c).statements := by
  induction passes generalizing c with
  | zero =>
    rw [List.length_eq_zero_iff.mp (Nat.le_zero.mp hpasses)]
    exact .nil
  | succ passes ih =>
    rw [statements] at h ⊢
    split at h
    · next hend =>
      rw [if_pos hend, List.isEmpty_iff.mp hend]
      exact .nil
    · next hend =>
      rw [if_neg hend]
      split at h
      · next hsemi =>
        rw [if_pos hsemi]
        have hnext := Cursor.Passes.next hsemi (by simp)
        rw [hnext.rest]
        have := hnext.length_le
        exact .semicolon hsemi (ih (by simp at this; omega) h)
      · next hsemi =>
        rw [if_neg hsemi]
        cases hstmt : r.stmt c with
        | ok stmt c' =>
          rw [hstmt] at h
          obtain ⟨ts, hts, d⟩ := hr.stmt hstmt
          -- The statement took a token, so one pass less is still enough.
          have htaken := List.length_pos_iff.mpr d.ne_nil
          have := hts.length_le
          rw [hts.rest]
          exact .cons d (ih (by omega) h)
        | error e c' =>
          rw [hstmt] at h
          cases h

/-- A program without diagnostics is the tree that the grammar assigns to all the tokens before the
end of input, each of them used once and in order. -/
theorem parse_derived (tokens : List Token) (h : (parse tokens).diagnostics = []) :
    Statements (tokens.takeWhile (·.kind != .eof)) (parse tokens).statements :=
  statements_derived (Rules.sound_atDepth _ _) (Nat.le_refl _) h

/-- The tokens of `; if (a) b++; else (x) => x` and a word behind the end of input. -/
def branchTokens : List Token :=
  [.symbol .semicolon, .keyword .ifKw, .symbol .leftParen, .ident "a", .symbol .rightParen,
    .ident "b", .symbol .plusPlus, .symbol .semicolon, .keyword .elseKw, .symbol .leftParen,
    .ident "x", .symbol .rightParen, .symbol .arrow, .ident "x", .eof, .keyword .doKw].map
    (⟨·, "", .start⟩)

theorem parse_derived_branch :
    (parse branchTokens).diagnostics = [] ∧
      Statements (branchTokens.take 14)
        [.ifElse (.ident "a" .start)
          (.expr (.update .increment false (.ident "b" .start) .start))
          (some (.expr (.function
            { name := none, params := ["x"], body := .expr (.ident "x" .start),
              position := .start })))
          .start] :=
  ⟨rfl, parse_derived branchTokens rfl⟩

end Quill.Syntax
