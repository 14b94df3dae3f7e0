import Quill.Proofs.Syntax.Fault.Location
import Quill.Proofs.Syntax.Layout.Contexts
import Quill.Proofs.Syntax.Sequence.Continuation

/-!
# Statements on either side of a semicolon

What stands in front of a statement does not matter: the line of the token before it is asked for
only behind an operand, which is a token of the statement itself (`Steady`). And what stands behind
a semicolon does not matter to the statements before it, with one exception (`Closes`): a statement
whose last part is a statement again may go on with `else`. All others either leave the semicolon,
or pass it and are done.
-/

set_option autoImplicit false

namespace Quill.Syntax

variable {α β : Type} {c c' : Cursor} {r : Rules}

/-! ## The line before a statement -/

/-- On a token the rule does not ask for the line before it: the outcome is the same, or a fault at
that token, which is then not passed. -/
def Steady (p : Parse α) : Prop :=
  ∀ ⦃c : Cursor⦄, c.current.kind ≠ .eof → ∀ line, p (c.behind line) = p c ∨
    ∃ d, p c = .error d c ∧ p (c.behind line) = .error d (c.behind line)

namespace Steady

theorem bind {p : Parse α} (hp : Steady p) (f : α → Parse β) : Steady (p >>= f) := by
  intro c hc line
  simp only [Bind.bind, EStateM.bind]
  rcases hp hc line with hsame | ⟨d, hread, hbehind⟩
  · exact .inl (by rw [hsame])
  · exact .inr ⟨d, by rw [hread], by rw [hbehind]⟩

theorem advance_bind (f : Token → Parse β) : Steady (advance >>= f) :=
  fun _ hc line => .inl (advance_bind_behind hc f line)

theorem expect (kind : TokenKind) (wanted : String) : Steady (expect kind wanted) := by
  intro c hc line
  by_cases hkind : c.current.kind = kind
  · refine .inl ?_
    have hbehind : (c.behind line).current.kind = kind := hkind
    rw [Syntax.expect, Syntax.expect, if_pos hkind, if_pos hbehind, Cursor.next_behind hc]
  · exact .inr ⟨_, if_neg hkind, if_neg hkind⟩

theorem unexpected (wanted : String) : Steady (unexpected wanted : Parse α) :=
  fun _ _ _ => .inr ⟨_, rfl, rfl⟩

theorem tooDeep (what : Nesting) : Steady (tooDeep what : Parse α) :=
  fun _ _ _ => .inr ⟨_, rfl, rfl⟩

/-- A rule told by the token it starts at. -/
theorem peek_bind {k : Token → Parse β} (hk : ∀ t, Steady (k t)) : Steady (peek >>= k) :=
  fun c hc line => hk c.current hc line

/-- A rule told by the tokens that are left. -/
theorem get_bind {k : Cursor → Parse β} (hk : ∀ c, Steady (k c))
    (hsame : ∀ (c : Cursor) line, k (c.behind line) = k c) : Steady (get >>= k) := by
  intro c hc line
  rw [Syntax.get_bind, Syntax.get_bind, hsame]
  exact hk c hc line

end Steady

theorem parenthesized_steady (r : Rules) : Steady (parenthesized r) := by
  refine .get_bind (fun c => ?_) fun _ _ => rfl
  split
  · exact .peek_bind fun _ => (Steady.expect _ _).bind _
  · exact .advance_bind _

theorem primary_steady (r : Rules) : Steady (primary r) := by
  refine .peek_bind fun t => ?_
  split
  · exact .advance_bind _
  · exact .advance_bind _
  · exact .advance_bind _
  · exact .advance_bind _
  · exact .advance_bind _
  · exact parenthesized_steady r
  · exact .advance_bind _
  · exact .peek_bind fun _ => (Steady.expect _ _).bind _
  · exact .advance_bind _
  · exact .unexpected _

theorem unaryRule_steady (r : Rules) : Steady (unaryRule r) := by
  refine .peek_bind fun t => ?_
  split
  · exact .advance_bind _
  · exact .advance_bind _
  · split
    · exact .advance_bind _
    · exact (primary_steady r).bind _

theorem infixRule_steady (r : Rules) (rows : List (List (Symbol × InfixOp))) :
    Steady (infixRule r rows) := by
  induction rows with
  | nil => exact unaryRule_steady r
  | cons row tighter ih => exact ih.bind _

theorem assignmentRule_steady (r : Rules) : Steady (assignmentRule r) :=
  ((infixRule_steady r _).bind _).bind _

theorem stmtRule_steady (hr : Steady r.assignment) : Steady (stmtRule r) := by
  have hexpr : Steady (ended (exprStmt r)) := (hr.bind _).bind _
  refine .peek_bind fun t => ?_
  split
  · exact (Steady.advance_bind _).bind _
  · exact (Steady.advance_bind _).bind _
  · exact .advance_bind _
  · exact .advance_bind _
  · exact (Steady.advance_bind _).bind _
  · exact .advance_bind _
  · exact .advance_bind _
  · exact (Steady.advance_bind _).bind _
  · exact (Steady.advance_bind _).bind _
  · exact (Steady.advance_bind _).bind _
  · exact (Steady.advance_bind _).bind _
  · exact ((Steady.expect _ _).bind _).bind _
  · refine .get_bind (fun c => ?_) fun _ _ => rfl
    split
    · exact .advance_bind _
    · exact hexpr
  · exact hexpr

theorem Rules.stmt_steady_atDepth (passes depth : Nat) :
    Steady (Rules.atDepth passes depth).stmt := by
  match depth with
  | 0 => exact .tooDeep _
  | 1 => exact stmtRule_steady (.tooDeep _)
  | depth + 2 => exact stmtRule_steady (assignmentRule_steady _)

/-! ## The end of a statement -/

/-- The tokens that are left, if there are any, end with a semicolon. -/
def Cursor.Closed (c : Cursor) : Prop := ∀ t, c.rest.getLast? = some t → t.kind = .symbol .semicolon

theorem Cursor.Reaches.closed (h : c.Reaches c') (hc : c.Closed) : c'.Closed := by
  obtain ⟨before, hbefore⟩ := h.rest
  intro t ht
  refine hc t ?_
  rw [← hbefore, List.getLast?_append, ht, Option.some_or]

/-- Tokens that no semicolon ends are not all that is left. -/
theorem Cursor.Closed.rest_ne_nil {ts : List Token} (hc : c.Closed) (hpassed : c.Passes ts c')
    (hbare : EndsBare ts) : c'.rest ≠ [] := by
  intro hend
  obtain ⟨t, hlast, hkind⟩ := hbare
  refine hkind (hc t ?_)
  rw [hpassed.rest, hend, List.append_nil, hlast]

/-- Behind a token that is no semicolon there is another one. -/
theorem Cursor.Closed.one_lt_length (hc : c.Closed) (hne : c.rest ≠ [])
    (hkind : c.current.kind ≠ .symbol .semicolon) : 1 < c.rest.length := by
  obtain ⟨line, rest, finish⟩ := c
  match rest with
  | [] => exact absurd rfl hne
  | [t] => exact absurd (hc t rfl) hkind
  | t :: u :: ts => simp

/-- The tokens do not begin with `else`. -/
def NoElse (ts : List Token) : Prop := ts.head?.map (·.kind) ≠ some (.keyword .elseKw)

/-- Where the rule succeeds from the cursor and a semicolon ends what is left, it does the same when
more tokens follow, unless these begin with `else`. -/
def ClosesAt (p : Parse α) (c : Cursor) : Prop :=
  ∀ ⦃a : α⦄ ⦃c' : Cursor⦄, p c = .ok a c' → c.Closed →
    c.rest ≠ [] ∧ ∀ more finish, NoElse more →
      p (c.followedBy more finish) = .ok a (c'.followedBy more finish)

/-- The rule closes from wherever it starts. -/
def Closes (p : Parse α) : Prop := ∀ ⦃c : Cursor⦄, ClosesAt p c

theorem Locates.reaches {p : Parse α} {a : α} (hp : Locates p) (h : p c = .ok a c') :
    c.Reaches c' := by
  have hlocated := hp c
  rw [h] at hlocated
  cases hlocated with
  | ok hreaches => exact hreaches

namespace Closes

theorem closesAt {p : Parse α} (hp : Closes p) (c : Cursor) : ClosesAt p c := @hp c

/-- What comes before the statement that ends with the semicolon. -/
theorem of_bind {p : Parse α} {k : α → Parse β} (hp : Continues p) (hforward : Locates p)
    (hk : ∀ a, Closes (k a)) : Closes (p >>= k) := by
  intro c b c' h hc
  obtain ⟨a, c₁, ha, h⟩ := of_bind_eq_ok h
  obtain ⟨hne₁, hk₁⟩ := hk a h ((hforward.reaches ha).closed hc)
  obtain ⟨hne₀, hp₀⟩ := hp ha hne₁
  exact ⟨hne₀, fun more finish hmore =>
    (bind_of_eq_ok (hp₀ more finish) k).trans (hk₁ more finish hmore)⟩

/-- A rule told by the token it starts at. -/
theorem of_peek_bind {k : Token → Parse β} (hk : ∀ c : Cursor, ClosesAt (k c.current) c) :
    Closes (peek >>= k) := by
  intro c b c' h hc
  obtain ⟨hne₀, hk₀⟩ := hk c h hc
  refine ⟨hne₀, fun more finish hmore => ?_⟩
  rw [peek_bind, Cursor.current_followedBy more finish hne₀]
  exact hk₀ more finish hmore

theorem bind_pure {p : Parse α} (hp : Closes p) (g : α → β) :
    Closes (p >>= fun a => pure (g a)) := by
  intro c b c' h hc
  obtain ⟨a, c₁, ha, h⟩ := of_bind_eq_ok h
  cases h
  obtain ⟨hne, hp₀⟩ := hp ha hc
  exact ⟨hne, fun more finish hmore => bind_of_eq_ok (hp₀ more finish hmore) _⟩

end Closes

theorem NoElse.current_followedBy {more : List Token} (hmore : NoElse more)
    (h : c.current.kind ≠ .keyword .elseKw) (finish : Position) :
    (c.followedBy more finish).current.kind ≠ .keyword .elseKw := by
  obtain ⟨line, rest, finish'⟩ := c
  cases rest with
  | cons t ts => exact h
  | nil =>
    cases more with
    | nil => exact nofun
    | cons t ts => exact fun helse => hmore (congrArg some helse)

/-! ## Statements with a statement inside -/

section

variable (hr : r.Continue) (hforward : r.Locate) (hstmt : Closes r.stmt)

include hr hforward hstmt

/-- A statement inside, and another one if an `else` follows. -/
theorem branches_close (build : Stmt → Option Stmt → Stmt) :
    Closes (do
      let whenTrue ← r.stmt
      if ← accept (.keyword .elseKw) then return build whenTrue (some (← r.stmt))
      else return build whenTrue none) := by
  intro c b c' h hc
  obtain ⟨whenTrue, c₁, htrue, h⟩ := of_bind_eq_ok h
  have hc₁ := (hforward.stmt.reaches htrue).closed hc
  rcases of_accept_bind h with ⟨helse, h⟩ | ⟨hno, h⟩
  · have hne₁ : c₁.rest ≠ [] := Cursor.rest_ne_nil_of_kind (by simp [helse])
    obtain ⟨hne, htrue⟩ := hr.stmt htrue hne₁
    obtain ⟨-, hfalse⟩ := hstmt.bind_pure _ h ((Cursor.Reaches.next c₁).closed hc₁)
    refine ⟨hne, fun more finish hmore => ?_⟩
    rw [bind_of_eq_ok (htrue more finish), accept_bind, Cursor.current_followedBy _ _ hne₁,
      if_pos helse, Cursor.next_followedBy _ _ hne₁]
    exact hfalse more finish hmore
  · cases h
    obtain ⟨hne, htrue⟩ := hstmt htrue hc
    refine ⟨hne, fun more finish hmore => ?_⟩
    rw [bind_of_eq_ok (htrue more finish hmore), accept_bind,
      if_neg (hmore.current_followedBy hno finish)]
    rfl

theorem ifRule_closes : Closes (ifRule r) := by
  refine .of_bind .advance .advance fun token => ?_
  refine .of_bind (condition_continues hr _) (condition_locates hforward _) fun test => ?_
  exact branches_close hr hforward hstmt fun whenTrue whenFalse =>
    .ifElse test whenTrue whenFalse token.position

theorem whileRule_closes : Closes (whileRule r) := by
  refine .of_bind .advance .advance fun token => ?_
  refine .of_bind (condition_continues hr _) (condition_locates hforward _) fun test => ?_
  exact hstmt.bind_pure _

theorem forEachRest_closes (traversal : Traversal) (position : Position) :
    Closes (forEachRest r traversal position) := by
  refine .of_bind .advance .advance fun word => .of_bind .identifier .identifier fun name => ?_
  refine .of_bind .advance .advance fun _ => ?_
  refine .of_bind hr.assignment hforward.assignment fun subject => ?_
  exact .of_bind (.expect _ _) (.expect _ _) fun _ => hstmt.bind_pure _

theorem forRest_closes (position : Position) : Closes (forRest r position) := by
  refine .of_bind (loopInit_continues hr) (loopInit_locates hforward) fun init => ?_
  refine .of_bind (.expect _ _) (.expect _ _) fun _ => ?_
  refine .of_bind (unlessAt_continues hr _) (unlessAt_locates _ hforward.assignment) fun test => ?_
  refine .of_bind (.expect _ _) (.expect _ _) fun _ => ?_
  refine .of_bind (unlessAt_continues hr _) (unlessAt_locates _ hforward.assignment)
    fun update => ?_
  exact .of_bind (.expect _ _) (.expect _ _) fun _ => hstmt.bind_pure _

theorem forRule_closes : Closes (forRule r) := by
  refine .of_bind .advance .advance fun token => ?_
  refine .of_bind (.expect _ _) (.expect _ _) fun _ c stmt c' h hc => ?_
  have hsame := traversalAhead?_followedBy (three_le_of_forRule hr.sound h)
  simp only [get_bind, hsame] at h ⊢
  cases hahead : traversalAhead? c with
  | some traversal =>
    rw [hahead] at h
    exact forEachRest_closes hr hforward hstmt _ _ h hc
  | none =>
    rw [hahead] at h
    exact forRest_closes hr hforward hstmt _ h hc

end

/-! ## Statements that leave the semicolon, or pass it last -/

/-- From the cursor the rule passes tokens that no semicolon ends. -/
def BareAt (p : Parse α) (c : Cursor) : Prop :=
  ∀ ⦃a : α⦄ ⦃c' : Cursor⦄, p c = .ok a c' → ∃ ts, c.Passes ts c' ∧ EndsBare ts

theorem ContinuesAt.closes {p : Parse α} (hp : ContinuesAt p c) (hbare : BareAt p c) :
    ClosesAt p c := by
  intro a c' h hc
  obtain ⟨ts, hts, hends⟩ := hbare h
  obtain ⟨hne, hp₀⟩ := hp h (hc.rest_ne_nil hts hends)
  exact ⟨hne, fun more finish _ => hp₀ more finish⟩

theorem ended_closes {rule : Parse Stmt} (hrule : Continues rule) (hbare : BareAt rule c) :
    ClosesAt (ended rule) c := by
  intro stmt c' h hc
  obtain ⟨stmt, c₁, hstmt, h⟩ := of_bind_eq_ok h
  obtain ⟨ts, hts, hends⟩ := hbare hstmt
  have hne₁ := hc.rest_ne_nil hts hends
  obtain ⟨hne, hrule₀⟩ := hrule hstmt hne₁
  refine ⟨hne, fun more finish _ => ?_⟩
  rw [ended, bind_of_eq_ok (hrule₀ more finish), accept_bind, Cursor.current_followedBy _ _ hne₁,
    Cursor.next_followedBy _ _ hne₁]
  rcases of_accept_bind h with ⟨hsemi, h⟩ | ⟨hno, h⟩
  · cases h
    exact if_pos hsemi
  · cases h
    exact if_neg hno

theorem declaration_bare (hr : r.Sound) {constant : Bool}
    (hword : DeclarationWord c.current constant) : BareAt (declaration r) c := by
  intro stmt c' h
  obtain ⟨ts, hts, d⟩ := spells_of_declaration hr hword h
  exact ⟨ts, hts, d.endsBare⟩

theorem blockStmt_bare (hr : r.Sound) (position : Position) :
    BareAt (return Stmt.block (← block r) position) c := by
  intro stmt c' h
  obtain ⟨stmts, c₁, ts, hts, d, h⟩ := (block_yields hr).of_bind h
  cases h
  exact ⟨ts, hts, d.endsBare⟩

theorem exprStmt_bare (hr : r.Sound) : BareAt (exprStmt r) c := by
  intro stmt c' h
  obtain ⟨e, c₁, ts, hts, d, h⟩ := hr.assignment.of_bind h
  cases h
  exact ⟨ts, hts, d.endsBare⟩

theorem doRule_bare (hr : r.Sound) (hword : c.current.kind = .keyword .doKw) :
    BareAt (doRule r) c := by
  intro stmt c' h
  simp only [doRule, advance_bind] at h
  obtain ⟨body, c₁, ts, hts, -, h⟩ := hr.stmt.of_bind h
  obtain ⟨hwhile, h⟩ := of_expect_bind h
  obtain ⟨test, c₂, cs, hcs, dtest, h⟩ := (condition_yields hr _).of_bind h
  cases h
  exact ⟨_, .cons hword (by simp) (hts.trans (.cons hwhile (by simp) hcs)),
    .cons (.append (.cons dtest.endsBare))⟩

theorem returnRule_bare (hr : r.Sound) (hword : c.current.kind = .keyword .returnKw) :
    BareAt (returnRule r) c := by
  intro stmt c' h
  simp only [returnRule, advance_bind, peek_bind] at h
  split at h
  · cases h
    exact ⟨_, .next hword (by simp), .single hword (by simp)⟩
  · obtain ⟨value, c₁, ts, hts, d, h⟩ := hr.assignment.of_bind h
    cases h
    exact ⟨_, .cons hword (by simp) hts, .cons d.endsBare⟩

theorem throwRule_bare (hr : r.Sound) (hword : c.current.kind = .keyword .throwKw) :
    BareAt (throwRule r) c := by
  intro stmt c' h
  simp only [throwRule, advance_bind] at h
  obtain ⟨value, c₁, ts, hts, d, h⟩ := hr.assignment.of_bind h
  cases h
  exact ⟨_, .cons hword (by simp) hts, .cons d.endsBare⟩

/-- A word that is a statement of its own. -/
theorem word_bare {word : Keyword} (hword : c.current.kind = .keyword word) (stmt : Stmt) :
    BareAt (do
      let _ ← advance
      return stmt) c := by
  intro stmt' c' h
  cases h
  exact ⟨_, .next hword (by simp), .single hword (by simp)⟩

theorem functionStmt_bare (hr : r.Sound) (hword : c.current.kind = .keyword .functionKw) :
    BareAt (functionStmt r) c := by
  intro stmt c' h
  simp only [functionStmt, advance_bind] at h
  obtain ⟨name, hname, h⟩ := of_identifier_bind h
  obtain ⟨definition, c₁, fs, hfs, d, h⟩ := (functionRest_yields hr _ _).of_bind h
  cases h
  exact ⟨_, .cons hword (by simp) (.cons hname (by simp) hfs), .cons (.cons d.endsBare)⟩

theorem tryRule_bare (hr : r.Sound) (hword : c.current.kind = .keyword .tryKw) :
    BareAt (tryRule r) c := by
  intro stmt c' h
  simp only [tryRule, advance_bind] at h
  obtain ⟨body, c₁, bs, hbs, dbody, h⟩ := (block_yields hr).of_bind h
  obtain ⟨onError, c₂, hs, hhs, dhandler, h⟩ := (handler_yields hr).of_bind h
  obtain ⟨always, c₃, fs, hfs, dcleanup, h⟩ := (cleanup_yields hr).of_bind h
  split at h
  · cases h
  · cases h
    refine ⟨_, .cons hword (by simp) (hbs.trans (hhs.trans hfs)), .cons ?_⟩
    cases dcleanup with
    | some _ hblock => exact .append (.append (.cons hblock.endsBare))
    | none =>
      rw [List.append_nil]
      cases dhandler with
      | some _ _ _ _ hblock => exact .append (.cons (.cons (.cons (.cons hblock.endsBare))))
      | none =>
        rw [List.append_nil]
        exact dbody.endsBare

/-! ## The knot -/

theorem stmtRule_closes (hr : r.Continue) (hforward : r.Locate) (hstmt : Closes r.stmt) :
    Closes (stmtRule r) := by
  have hexpr : ∀ c, ClosesAt (ended (exprStmt r)) c := fun c =>
    ended_closes (exprStmt_continues hr) (exprStmt_bare hr.sound)
  refine .of_peek_bind fun c => ?_
  generalize hkind : c.current.kind = kind
  split
  · have hword : DeclarationWord c.current false := hkind
    exact ended_closes (declaration_continues hr) (declaration_bare hr.sound hword)
  · have hword : DeclarationWord c.current true := hkind
    exact ended_closes (declaration_continues hr) (declaration_bare hr.sound hword)
  · exact (ifRule_closes hr hforward hstmt).closesAt c
  · exact (whileRule_closes hr hforward hstmt).closesAt c
  · exact ended_closes (doRule_continues hr) (doRule_bare hr.sound hkind)
  · exact (forRule_closes hr hforward hstmt).closesAt c
  · exact ((tryRule_continues hr).continuesAt c).closes (tryRule_bare hr.sound hkind)
  · exact ended_closes (returnRule_continues hr) (returnRule_bare hr.sound hkind)
  · exact ended_closes (throwRule_continues hr) (throwRule_bare hr.sound hkind)
  · exact ended_closes (.bind .advance fun _ => .pure _) (word_bare hkind _)
  · exact ended_closes (.bind .advance fun _ => .pure _) (word_bare hkind _)
  · have hblock : Continues (return Stmt.block (← block r) c.current.position) :=
      .bind (block_continues hr) fun _ => .pure _
    exact (hblock.continuesAt c).closes (blockStmt_bare hr.sound _)
  · intro stmt c' h hc
    have hne := Cursor.rest_ne_nil_of_kind (by simp [hkind] : c.current.kind ≠ .eof)
    have hsame := fun more finish =>
      Cursor.kindAt_followedBy more finish (hc.one_lt_length hne (by simp [hkind]))
    simp only [get_bind, hsame] at h ⊢
    generalize c.kindAt 1 = kind' at h ⊢
    cases kind' with
    | ident name =>
      exact ((functionStmt_continues hr).continuesAt c).closes (functionStmt_bare hr.sound hkind)
        h hc
    | _ => exact hexpr c h hc
  · exact hexpr c

/-- A statement whose tokens, and those behind it, end with a semicolon is read in the same way
when more tokens follow, unless these begin with `else`. -/
theorem Rules.stmt_closes_atDepth (passes depth : Nat) :
    Closes (Rules.atDepth passes depth).stmt := by
  induction depth with
  | zero => exact fun _ _ _ h => nomatch h
  | succ depth ih =>
    exact stmtRule_closes (Rules.continue_atDepth passes depth) (Rules.locate_atDepth passes depth)
      ih

end Quill.Syntax
