import Quill.Proofs.Syntax.Sequence.Shape
import Quill.Proofs.Syntax.Soundness.Stmt

/-!
# More tokens behind what is read

A rule that succeeds and leaves a token has looked at no more than the tokens that were there. So it
does the same when more tokens follow (`Continues`). A rule that leaves no token is another matter:
it has seen the end of input, or could have, and there the tokens that follow may change its mind.

There is one lemma for each way to build rules, and one for each rule, in the order of the grammar.
Three rules look further than the token at the cursor. The two that look a fixed number of tokens
ahead have passed as many when they succeed. The search for an arrow has no such bound, but where a
parenthesis groups an expression, the expression is balanced, so the search ends with it.
-/

set_option autoImplicit false

namespace Quill.Syntax

variable {α β γ : Type} {c c' : Cursor} {r : Rules}

/-! ## Cursors -/

/-- The cursor with more tokens behind those that are left. -/
def Cursor.followedBy (c : Cursor) (more : List Token) (finish : Position) : Cursor :=
  { c with rest := c.rest ++ more, finish }

section Cursors

variable (more : List Token) (finish : Position)

theorem Cursor.current_followedBy (h : c.rest ≠ []) :
    (c.followedBy more finish).current = c.current := by
  obtain ⟨line, rest, finish'⟩ := c
  cases rest with
  | nil => exact absurd rfl h
  | cons t ts => rfl

theorem Cursor.next_followedBy (h : c.rest ≠ []) :
    (c.followedBy more finish).next = c.next.followedBy more finish := by
  obtain ⟨line, rest, finish'⟩ := c
  cases rest with
  | nil => exact absurd rfl h
  | cons t ts => rfl

theorem Cursor.atEnd_followedBy (h : c.rest ≠ []) :
    (c.followedBy more finish).atEnd = c.atEnd := by
  obtain ⟨line, rest, finish'⟩ := c
  cases rest with
  | nil => exact absurd rfl h
  | cons t ts => rfl

theorem Cursor.onPreviousLine_followedBy (h : c.rest ≠ []) :
    (c.followedBy more finish).onPreviousLine = c.onPreviousLine := by
  rw [onPreviousLine, onPreviousLine, current_followedBy more finish h]
  rfl

theorem Cursor.kindAt_followedBy {i : Nat} (h : i < c.rest.length) :
    (c.followedBy more finish).kindAt i = c.kindAt i := by
  simp only [kindAt, followedBy, List.getElem?_append_left h]

end Cursors

theorem Cursor.rest_ne_nil_of_next (h : c.next.rest ≠ []) : c.rest ≠ [] := by
  intro hend
  rw [Cursor.next, hend] at h
  exact h hend

/-! ## Rules -/

/-- Where the rule succeeds from the cursor and leaves a token, the cursor has a token, and the rule
does the same when more tokens follow. -/
def ContinuesAt (p : Parse α) (c : Cursor) : Prop :=
  ∀ ⦃a : α⦄ ⦃c' : Cursor⦄, p c = .ok a c' → c'.rest ≠ [] →
    c.rest ≠ [] ∧ ∀ more finish, p (c.followedBy more finish) = .ok a (c'.followedBy more finish)

/-- The rule continues from wherever it starts. -/
def Continues (p : Parse α) : Prop := ∀ ⦃c : Cursor⦄, ContinuesAt p c

namespace Continues

theorem continuesAt {p : Parse α} (hp : Continues p) (c : Cursor) : ContinuesAt p c := @hp c

theorem bind {p : Parse α} {k : α → Parse β} (hp : Continues p) (hk : ∀ a, Continues (k a)) :
    Continues (p >>= k) := by
  intro c b c' h hne
  obtain ⟨a, c₁, ha, h⟩ := of_bind_eq_ok h
  obtain ⟨hne₁, hk₁⟩ := hk a h hne
  obtain ⟨hne₀, hp₀⟩ := hp ha hne₁
  exact ⟨hne₀, fun more finish => (bind_of_eq_ok (hp₀ more finish) k).trans (hk₁ more finish)⟩

/-- What depends on the token at the cursor only. -/
theorem look {p : Parse α} {answer : Cursor → α} (hp : ∀ c, p c = .ok (answer c) c)
    (hanswer : ∀ c more finish, c.rest ≠ [] → answer (c.followedBy more finish) = answer c) :
    Continues p := by
  intro c a c' h hne
  rw [hp] at h
  cases h
  exact ⟨hne, fun more finish => by rw [hp, hanswer c more finish hne]⟩

theorem pure (a : α) : Continues (Pure.pure a : Parse α) := by
  intro c b c' h hne
  cases h
  exact ⟨hne, fun _ _ => rfl⟩

theorem peek : Continues peek :=
  look (fun _ => rfl) fun _ _ _ h => Cursor.current_followedBy _ _ h

theorem check (kind : TokenKind) : Continues (check kind) :=
  look (fun _ => rfl) fun _ _ _ h => by rw [Cursor.current_followedBy _ _ h]

theorem atEnd : Continues atEnd :=
  look (fun _ => rfl) fun _ _ _ h => Cursor.atEnd_followedBy _ _ h

/-- A rule told by the token it starts at. -/
theorem of_peek_bind {k : Token → Parse β} (hk : ∀ c : Cursor, ContinuesAt (k c.current) c) :
    Continues (Syntax.peek >>= k) := by
  intro c b c' h hne
  obtain ⟨hne₀, hk₀⟩ := hk c h hne
  refine ⟨hne₀, fun more finish => ?_⟩
  rw [peek_bind, Cursor.current_followedBy more finish hne₀]
  exact hk₀ more finish

/-- Looking at the cursor, for what its token and the line before it tell. -/
theorem get_bind {k : Cursor → Parse β} (hk : ∀ c, Continues (k c))
    (hsame : ∀ (c : Cursor) more finish, c.rest ≠ [] → k (c.followedBy more finish) = k c) :
    Continues (get >>= k) := by
  intro c b c' h hne
  obtain ⟨hne₀, hk₀⟩ := hk c h hne
  refine ⟨hne₀, fun more finish => ?_⟩
  rw [Syntax.get_bind, hsame c more finish hne₀]
  exact hk₀ more finish

theorem advance : Continues advance := by
  intro c t c' h hne
  cases h
  have hne₀ := Cursor.rest_ne_nil_of_next hne
  refine ⟨hne₀, fun more finish => ?_⟩
  rw [Syntax.advance, Cursor.current_followedBy more finish hne₀,
    Cursor.next_followedBy more finish hne₀]

theorem accept (kind : TokenKind) : Continues (accept kind) := by
  intro c b c' h hne
  have hne₀ : c.rest ≠ [] := by
    rw [Syntax.accept] at h
    split at h
    · cases h
      exact Cursor.rest_ne_nil_of_next hne
    · cases h
      exact hne
  refine ⟨hne₀, fun more finish => ?_⟩
  rw [Syntax.accept] at h ⊢
  rw [Cursor.current_followedBy more finish hne₀, Cursor.next_followedBy more finish hne₀]
  split at h
  · next hkind =>
    cases h
    rw [if_pos hkind]
  · next hkind =>
    cases h
    rw [if_neg hkind]

theorem expect (kind : TokenKind) (wanted : String) : Continues (expect kind wanted) := by
  intro c b c' h hne
  rw [Syntax.expect] at h
  split at h
  · next hkind =>
    cases h
    have hne₀ := Cursor.rest_ne_nil_of_next hne
    refine ⟨hne₀, fun more finish => ?_⟩
    rw [Syntax.expect, Cursor.current_followedBy more finish hne₀,
      Cursor.next_followedBy more finish hne₀, if_pos hkind]
  · cases h

/-- A rule that fails has nothing to continue. -/
theorem of_fails {p : Parse α} (h : ∀ c a c', p c ≠ .ok a c') : Continues p :=
  fun c a c' hok => absurd hok (h c a c')

theorem unexpected (wanted : String) : Continues (unexpected wanted : Parse α) := of_fails nofun

theorem failAt (position : Position) (fault : Fault) :
    Continues (failAt position fault : Parse α) := of_fails nofun

theorem tooDeep (what : Nesting) : Continues (tooDeep what : Parse α) := of_fails nofun

theorem identifier : Continues identifier := by
  refine peek.bind fun t => ?_
  split
  · exact advance.bind fun _ => pure _
  · exact unexpected _

theorem propertyName : Continues propertyName := by
  refine peek.bind fun t => ?_
  split
  · exact advance.bind fun _ => pure _
  · split
    · exact advance.bind fun _ => pure _
    · exact unexpected _

theorem extend {more : α → Parse (Option α)} (hmore : ∀ x, Continues (more x)) (passes : Nat)
    (x : α) : Continues (extend more passes x) := by
  induction passes generalizing x with
  | zero => exact pure x
  | succ passes ih =>
    refine (hmore x).bind fun y => ?_
    cases y with
    | none => exact pure x
    | some y => exact ih y

theorem commaList {item : Parse α} (hitem : Continues item) (close : Symbol) (passes : Nat)
    (done : List α) : Continues (commaList close item passes done) := by
  induction passes generalizing done with
  | zero => exact pure _
  | succ passes ih =>
    refine (check _).bind fun closed => atEnd.bind fun ended => ?_
    split
    · exact pure _
    · refine hitem.bind fun x => (accept _).bind fun comma => ?_
      split
      · exact ih _
      · exact pure _

end Continues

/-- Looking some tokens ahead, where as many are there. -/
theorem ContinuesAt.get_bind {k : Cursor → Parse β} {n : Nat} (hk : ContinuesAt (k c) c)
    (hlength : ∀ {b c'}, k c c = .ok b c' → c'.rest ≠ [] → n ≤ c.rest.length)
    (hsame : ∀ more finish, n ≤ c.rest.length → k (c.followedBy more finish) = k c) :
    ContinuesAt (get >>= k) c := by
  intro b c' h hne
  obtain ⟨hne₀, hk₀⟩ := hk h hne
  refine ⟨hne₀, fun more finish => ?_⟩
  rw [Syntax.get_bind, hsame more finish (hlength h hne)]
  exact hk₀ more finish

/-- The counted rules continue. -/
structure Rules.Continue (r : Rules) : Prop where
  sound : r.Sound
  stmt : Continues r.stmt
  assignment : Continues r.assignment
  ternary : Continues r.ternary
  unary : Continues r.unary

/-! ## Blocks and functions -/

section

variable (h : r.Continue)

include h

theorem blockItem_continues (done : List Stmt) : Continues (blockItem r done) := by
  refine .bind (.check _) fun closed => .bind .atEnd fun ended => ?_
  split
  · exact .pure _
  · refine .bind (.accept _) fun semicolon => ?_
    split
    · exact .pure _
    · exact .bind h.stmt fun stmt => .pure _

theorem block_continues : Continues (block r) := by
  refine .bind (.expect _ _) fun _ => .bind (.extend (blockItem_continues h) _ _) fun done => ?_
  exact .bind (.expect _ _) fun _ => .pure _

omit h in
theorem params_continues (r : Rules) : Continues (params r) := .commaList .identifier _ _ _

theorem functionRest_continues (name : Option String) (position : Position) :
    Continues (functionRest r name position) := by
  refine .bind (.expect _ _) fun _ => .bind (params_continues r) fun ps => ?_
  exact .bind (.expect _ _) fun _ => .bind (block_continues h) fun body => .pure _

theorem arrowBody_continues : Continues (arrowBody r) := by
  refine .bind (.check _) fun brace => ?_
  split
  · exact .bind (block_continues h) fun body => .pure _
  · exact .bind h.assignment fun e => .pure _

theorem arrowFunction_continues : Continues (arrowFunction r) := by
  refine .bind .peek fun token => .bind (.expect _ _) fun _ => ?_
  refine .bind (params_continues r) fun ps => .bind (.expect _ _) fun _ => ?_
  exact .bind (.expect _ _) fun _ => .bind (arrowBody_continues h) fun body => .pure _

/-! ## Operands -/

theorem property_continues : Continues (property r) := by
  refine .bind .advance fun token => ?_
  cases propertyKey? token with
  | none => exact .failAt _ _
  | some key =>
    refine .bind (.check _) fun comma => .bind (.check _) fun brace => ?_
    split
    · exact .pure _
    · exact .bind (.expect _ _) fun _ => .bind h.assignment fun e => .pure _

theorem objectLiteral_continues : Continues (objectLiteral r) := by
  refine .bind .peek fun token => .bind (.expect _ _) fun _ => ?_
  refine .bind (.commaList (property_continues h) _ _ _) fun entries => ?_
  exact .bind (.expect _ _) fun _ => .pure _

theorem arrayLiteral_continues : Continues (arrayLiteral r) := by
  refine .bind .advance fun token => .bind (.commaList h.assignment _ _ _) fun items => ?_
  exact .bind (.expect _ _) fun _ => .pure _

omit h in
/-- An arrow that was found is still found. -/
theorem arrowAhead_append {depth : Nat} {ts : List Token} (harrow : arrowAhead depth ts = true)
    (more : List Token) : arrowAhead depth (ts ++ more) = true := by
  induction ts generalizing depth with
  | nil => cases harrow
  | cons t ts ih =>
    rw [List.cons_append]
    unfold arrowAhead at harrow ⊢
    split
    · next hkind =>
      simp only [hkind] at harrow
      exact ih harrow
    · next hkind =>
      simp only [hkind] at harrow
      split
      · next hlast =>
        rw [if_pos hlast] at harrow
        cases ts with
        | nil => cases harrow
        | cons u us => exact harrow
      · next hlast =>
        rw [if_neg hlast] at harrow
        exact ih harrow
    · next hopen hclose =>
      split at harrow
      · next hkind => exact absurd hkind hopen
      · next hkind => exact absurd hkind hclose
      · exact ih harrow

/-- Whether a parenthesis groups an expression is told by the tokens up to the one behind it. -/
theorem parenthesized_continues (hopen : c.current.kind = .symbol .leftParen) :
    ContinuesAt (parenthesized r) c := by
  intro e c' hread hne
  simp only [parenthesized, get_bind] at hread ⊢
  split at hread
  · next harrow =>
    obtain ⟨hne₀, hmore⟩ := arrowFunction_continues h hread hne
    refine ⟨hne₀, fun more finish => ?_⟩
    have hahead : arrowAhead 0 (c.followedBy more finish).rest = true :=
      arrowAhead_append harrow more
    rw [if_pos hahead]
    exact hmore more finish
  · next harrow =>
    have hgroup : Continues (do
        let _ ← advance
        let inner ← r.assignment
        expect (.symbol .rightParen) "')' after expression"
        return inner) :=
      .bind .advance fun _ => .bind h.assignment fun inner => .bind (.expect _ _) fun _ => .pure _
    obtain ⟨hne₀, hmore⟩ := hgroup hread hne
    refine ⟨hne₀, fun more finish => ?_⟩
    simp only [advance_bind] at hread
    obtain ⟨inner, c₁, ts, hts, d, hread⟩ := h.sound.assignment.of_bind hread
    obtain ⟨hclose, hread⟩ := of_expect_bind hread
    cases hread
    -- The tokens from the parenthesis to the one that closes it, and the next one.
    have hrest : c.rest = c.current :: (ts ++ c₁.current :: c₁.next.rest) := by
      rw [(Cursor.Passes.next hopen (by simp)).rest, hts.rest,
        (Cursor.Passes.next hclose (by simp)).rest]
      rfl
    have hahead : arrowAhead 0 (c.followedBy more finish).rest = arrowAhead 0 c.rest := by
      rw [Cursor.followedBy, hrest, List.cons_append, List.append_assoc, List.cons_append,
        arrowAhead_group hopen d.balanced hclose, arrowAhead_group hopen d.balanced hclose,
        List.head?_append, List.head?_eq_some_head hne, Option.some_or]
    rw [hahead, if_neg harrow]
    exact hmore more finish

theorem nameOrArrow_continues (name : String) : Continues (nameOrArrow r name) := by
  refine .bind .advance fun token => .bind (.accept _) fun arrow => ?_
  split
  · exact .bind (arrowBody_continues h) fun body => .pure _
  · exact .pure _

theorem functionExpr_continues : Continues (functionExpr r) := by
  refine .bind .advance fun token => .bind .peek fun t => ?_
  split
  · exact .bind .advance fun _ => .bind (functionRest_continues h _ _) fun d => .pure _
  · exact .bind (functionRest_continues h _ _) fun d => .pure _

theorem primary_continues : Continues (primary r) := by
  refine .of_peek_bind fun c => ?_
  by_cases hopen : c.current.kind = .symbol .leftParen
  · rw [hopen]
    exact parenthesized_continues h hopen
  refine Continues.continuesAt ?_ c
  split
  · exact .bind .advance fun _ => .pure _
  · exact .bind .advance fun _ => .pure _
  · exact .bind .advance fun _ => .pure _
  · exact .bind .advance fun _ => .pure _
  · exact nameOrArrow_continues h _
  · next hkind => exact absurd hkind hopen
  · exact arrayLiteral_continues h
  · exact objectLiteral_continues h
  · exact functionExpr_continues h
  · exact .unexpected _

/-! ## What follows an operand -/

theorem suffix_continues (operand : Expr) : Continues (suffix r operand) := by
  refine .bind .peek fun t => ?_
  split
  · refine .bind .advance fun _ => .bind (.commaList h.assignment _ _ _) fun args => ?_
    exact .bind (.expect _ _) fun _ => .pure _
  · exact .bind .advance fun _ => .bind .propertyName fun name => .pure _
  · exact .bind .advance fun _ => .bind .propertyName fun name => .pure _
  · refine .bind .advance fun _ => .bind h.assignment fun index => ?_
    exact .bind (.expect _ _) fun _ => .pure _
  · split
    · refine .get_bind (fun c => ?_) fun c more finish hne => ?_
      · split
        · exact .bind .advance fun _ => .pure _
        · exact .pure _
      · rw [Cursor.onPreviousLine_followedBy more finish hne]
    · exact .pure _

theorem suffixed_continues : Continues (suffixed r) :=
  .bind (primary_continues h) fun operand => .extend (suffix_continues h) _ operand

/-! ## Operators -/

theorem unaryRule_continues : Continues (unaryRule r) := by
  refine .bind .peek fun t => ?_
  split
  · exact .bind .advance fun _ => .bind h.unary fun e => .pure _
  · exact .bind .advance fun _ => .bind h.unary fun e => .pure _
  · split
    · exact .bind .advance fun _ => .bind h.unary fun e => .pure _
    · exact suffixed_continues h

omit h in
theorem infixStep_continues (row : List (Symbol × InfixOp)) {operand : Parse Expr}
    (hoperand : Continues operand) (left : Expr) : Continues (infixStep row operand left) := by
  refine .bind .peek fun t => ?_
  split
  · exact .pure _
  · exact .bind .advance fun _ => .bind hoperand fun right => .pure _

theorem infixRule_continues (rows : List (List (Symbol × InfixOp))) :
    Continues (infixRule r rows) := by
  induction rows with
  | nil => exact unaryRule_continues h
  | cons row tighter ih => exact .bind ih fun first => .extend (infixStep_continues row ih) _ first

theorem ternaryRule_continues : Continues (ternaryRule r) := by
  refine .bind (infixRule_continues h _) fun condition => .bind (.accept _) fun question => ?_
  split
  · refine .bind h.assignment fun whenTrue => .bind (.expect _ _) fun _ => ?_
    exact .bind h.ternary fun whenFalse => .pure _
  · exact .pure _

theorem assignmentRest_continues (target : Expr) (build : Expr → Expr) :
    Continues (assignmentRest r target build) := by
  refine .bind .advance fun operator => ?_
  split
  · exact .bind h.assignment fun e => .pure _
  · exact .failAt _ _

theorem assignmentRule_continues : Continues (assignmentRule r) := by
  refine .bind (ternaryRule_continues h) fun target => .bind .peek fun t => ?_
  dsimp only
  split
  · exact assignmentRest_continues h _ _
  · split
    · exact assignmentRest_continues h _ _
    · exact .pure _

/-! ## Statements -/

theorem declaration_continues : Continues (declaration r) := by
  refine .bind .advance fun t => .bind .identifier fun name => ?_
  split
  · exact .bind (.expect _ _) fun _ => .bind h.assignment fun e => .pure _
  · refine .bind (.accept _) fun assign => ?_
    split
    · exact .bind h.assignment fun e => .pure _
    · exact .pure _

theorem condition_continues (word : Keyword) : Continues (condition r word) :=
  .bind (.expect _ _) fun _ => .bind h.assignment fun _ => .bind (.expect _ _) fun _ => .pure _

theorem ifRule_continues : Continues (ifRule r) := by
  refine .bind .advance fun _ => .bind (condition_continues h _) fun test => ?_
  refine .bind h.stmt fun whenTrue => .bind (.accept _) fun word => ?_
  split
  · exact .bind h.stmt fun whenFalse => .pure _
  · exact .pure _

theorem whileRule_continues : Continues (whileRule r) := by
  refine .bind .advance fun _ => .bind (condition_continues h _) fun test => ?_
  exact .bind h.stmt fun body => .pure _

theorem doRule_continues : Continues (doRule r) := by
  refine .bind .advance fun _ => .bind h.stmt fun body => .bind (.expect _ _) fun _ => ?_
  exact .bind (condition_continues h _) fun test => .pure _

theorem forEachRest_continues (traversal : Traversal) (position : Position) :
    Continues (forEachRest r traversal position) := by
  refine .bind .advance fun word => .bind .identifier fun name => .bind .advance fun _ => ?_
  refine .bind h.assignment fun subject => .bind (.expect _ _) fun _ => ?_
  exact .bind h.stmt fun body => .pure _

theorem loopInit_continues : Continues (loopInit r) := by
  refine .bind .peek fun t => ?_
  split
  · exact .pure _
  · exact .bind (declaration_continues h) fun s => .pure _
  · exact .bind (declaration_continues h) fun s => .pure _
  · exact .bind h.assignment fun e => .pure _

theorem unlessAt_continues (sym : Symbol) : Continues (unlessAt sym r.assignment) := by
  refine .bind (.check _) fun found => ?_
  split
  · exact .pure _
  · exact .bind h.assignment fun e => .pure _

theorem forRest_continues (position : Position) : Continues (forRest r position) := by
  refine .bind (loopInit_continues h) fun init => .bind (.expect _ _) fun _ => ?_
  refine .bind (unlessAt_continues h _) fun test => .bind (.expect _ _) fun _ => ?_
  refine .bind (unlessAt_continues h _) fun update => .bind (.expect _ _) fun _ => ?_
  exact .bind h.stmt fun body => .pure _

theorem handler_continues : Continues (handler r) := by
  refine .bind .peek fun token => .bind (.accept _) fun word => ?_
  split
  · refine .bind (.expect _ _) fun _ => .bind .identifier fun param => ?_
    exact .bind (.expect _ _) fun _ => .bind (block_continues h) fun body => .pure _
  · exact .pure _

theorem cleanup_continues : Continues (cleanup r) := by
  refine .bind (.accept _) fun word => ?_
  split
  · exact .bind (block_continues h) fun body => .pure _
  · exact .pure _

theorem tryRule_continues : Continues (tryRule r) := by
  refine .bind .advance fun token => .bind (block_continues h) fun body => ?_
  refine .bind (handler_continues h) fun onError => .bind (cleanup_continues h) fun always => ?_
  split
  · exact .failAt _ _
  · exact .pure _

theorem returnRule_continues : Continues (returnRule r) := by
  refine .bind .advance fun token => .bind .peek fun t => ?_
  dsimp only
  split
  · exact .pure _
  · exact .bind h.assignment fun e => .pure _

theorem throwRule_continues : Continues (throwRule r) :=
  .bind .advance fun _ => .bind h.assignment fun _ => .pure _

theorem functionStmt_continues : Continues (functionStmt r) := by
  refine .bind .advance fun token => .bind .identifier fun name => ?_
  exact .bind (functionRest_continues h _ _) fun d => .pure _

omit h in
theorem ended_continues {rule : Parse Stmt} (hrule : Continues rule) : Continues (ended rule) :=
  .bind hrule fun _ => .bind (.accept _) fun _ => .pure _

theorem exprStmt_continues : Continues (exprStmt r) := .bind h.assignment fun _ => .pure _

omit h in
/-- The parts of a counting `for` are told apart by three tokens. -/
theorem three_le_of_forRest (hr : r.Sound) {position : Position} {stmt : Stmt}
    (hread : forRest r position c = .ok stmt c') : 3 ≤ c.rest.length := by
  obtain ⟨init, c₁, is, his, -, hread⟩ := (loopInit_yields hr).of_bind hread
  obtain ⟨hsemi₁, hread⟩ := of_expect_bind hread
  obtain ⟨test, c₂, cs, hcs, -, hread⟩ := (unlessAt_yields hr _).of_bind hread
  obtain ⟨hsemi₂, hread⟩ := of_expect_bind hread
  obtain ⟨update, c₃, us, hus, -, hread⟩ := (unlessAt_yields hr _).of_bind hread
  obtain ⟨hclose, hread⟩ := of_expect_bind hread
  have h₁ := next_length_lt (c := c₁) (by simp [hsemi₁])
  have h₂ := next_length_lt (c := c₂) (by simp [hsemi₂])
  have h₃ := next_length_lt (c := c₃) (by simp [hclose])
  have := his.length_le
  have := hcs.length_le
  have := hus.length_le
  omega

omit h in
theorem three_le_of_traversalAhead? {traversal : Traversal}
    (hahead : traversalAhead? c = some traversal) : 3 ≤ c.rest.length := by
  obtain ⟨constant, name, hdeclare, hname, hover⟩ := traversalAhead?_eq_some hahead
  have h₁ := next_length_lt (c := c) (by simp [show c.current.kind = _ from hdeclare])
  have h₂ := next_length_lt (c := c.next) (by simp [hname])
  have h₃ := next_length_lt hover.kind_ne_eof
  omega

omit h in
/-- A `for` of either kind has three tokens behind its parenthesis. -/
theorem three_le_of_forRule (hr : r.Sound) {position : Position} {stmt : Stmt}
    (hread : (match traversalAhead? c with
      | some traversal => forEachRest r traversal position
      | none => forRest r position) c = .ok stmt c') : 3 ≤ c.rest.length := by
  cases hahead : traversalAhead? c with
  | some traversal => exact three_le_of_traversalAhead? hahead
  | none =>
    rw [hahead] at hread
    exact three_le_of_forRest hr hread

omit h in
theorem traversalAhead?_followedBy (hlength : 3 ≤ c.rest.length) (more : List Token)
    (finish : Position) : traversalAhead? (c.followedBy more finish) = traversalAhead? c := by
  rw [traversalAhead?, traversalAhead?, Cursor.kindAt_followedBy more finish (by omega),
    Cursor.kindAt_followedBy more finish (by omega),
    Cursor.kindAt_followedBy more finish (by omega)]

theorem forRule_continues : Continues (forRule r) := by
  refine .bind .advance fun token => .bind (.expect _ _) fun _ c => .get_bind (n := 3) ?_ ?_ ?_
  · split
    · exact (forEachRest_continues h _ _).continuesAt c
    · exact (forRest_continues h _).continuesAt c
  · exact fun hread _ => three_le_of_forRule h.sound hread
  · exact fun more finish hlength => by rw [traversalAhead?_followedBy hlength]

theorem stmtRule_continues : Continues (stmtRule r) := by
  refine .of_peek_bind fun c => ?_
  generalize hkind : c.current.kind = kind
  split
  case h_13 =>
    refine .get_bind (n := 2) ?_ ?_ ?_
    · split
      · exact (functionStmt_continues h).continuesAt c
      · exact (ended_continues (exprStmt_continues h)).continuesAt c
    · intro stmt c' hread hne
      have hstmt : stmtRule r c = .ok stmt c' := by
        simpa only [stmtRule, peek_bind, get_bind, hkind] using hread
      obtain ⟨ts, hts, d⟩ := stmtRule_yields h.sound hstmt
      have hpassed := List.length_pos_iff.mpr d.ne_nil
      have hleft := List.length_pos_iff.mpr hne
      have := hts.length_le
      omega
    · intro more finish hlength
      rw [Cursor.kindAt_followedBy more finish (by omega)]
  all_goals refine Continues.continuesAt ?_ c
  · exact ended_continues (declaration_continues h)
  · exact ended_continues (declaration_continues h)
  · exact ifRule_continues h
  · exact whileRule_continues h
  · exact ended_continues (doRule_continues h)
  · exact forRule_continues h
  · exact tryRule_continues h
  · exact ended_continues (returnRule_continues h)
  · exact ended_continues (throwRule_continues h)
  · exact ended_continues (.bind .advance fun _ => .pure _)
  · exact ended_continues (.bind .advance fun _ => .pure _)
  · exact .bind (block_continues h) fun body => .pure _
  · exact ended_continues (exprStmt_continues h)

end

/-- The rules of every depth continue. -/
theorem Rules.continue_atDepth (passes depth : Nat) : (Rules.atDepth passes depth).Continue := by
  have hsound := Rules.sound_atDepth passes
  induction depth with
  | zero => exact ⟨hsound 0, .tooDeep _, .tooDeep _, .tooDeep _, .tooDeep _⟩
  | succ depth ih =>
    exact ⟨hsound (depth + 1), stmtRule_continues ih, assignmentRule_continues ih,
      ternaryRule_continues ih, unaryRule_continues ih⟩

end Quill.Syntax
