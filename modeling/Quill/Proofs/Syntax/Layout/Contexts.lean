import Quill.Proofs.Syntax.Layout.Rules

/-!
# An expression in its statement

Three statements hold an expression behind a word: `let x = E;`, `throw E;` and `return E;`. The
expression begins behind another token in each of them, and the rules have another bound on their
repetitions, but neither matters: an expression does not ask what stands before its first token
(`Opens`). So what is read as the value of a `let` is read in the same way behind `throw`, and
behind `return` unless it begins with `function`. That word also begins a statement, and there
`return` goes without a value.
-/

set_option autoImplicit false

namespace Quill.Syntax

variable {α β : Type} {c : Cursor} {r : Rules} {E E' : List Token} {t : Expr}

/-! ## The first token of an expression -/

/-- An expression can begin with a token of this kind. -/
def opensExpression : TokenKind → Bool
  | .number _ | .string _ | .bool _ | .null | .ident _ => true
  | .symbol sym => [Symbol.leftParen, .leftBracket, .leftBrace, .minus, .bang, .plusPlus,
      .minusMinus].contains sym
  | .keyword word => word == .functionKw
  | .error _ | .eof => false

/-- The cursor as it would be behind a token on another line. -/
def Cursor.behind (c : Cursor) (line : Option Nat) : Cursor := { c with previousLine := line }

theorem Cursor.next_behind (h : c.current.kind ≠ .eof) (line : Option Nat) :
    (c.behind line).next = c.next := by
  obtain ⟨before, rest, finish⟩ := c
  cases rest with
  | nil => exact absurd rfl h
  | cons t ts => rfl

/-- Where the rule succeeds, it does so because of the tokens that are left, and the first of them
opens an expression. -/
def Opens (p : Parse α) : Prop :=
  ∀ ⦃c : Cursor⦄ ⦃a : α⦄ ⦃c' : Cursor⦄, p c = .ok a c' →
    opensExpression c.current.kind = true ∧ ∀ line, p (c.behind line) = .ok a c'

theorem Opens.bind {p : Parse α} (hp : Opens p) (f : α → Parse β) : Opens (p >>= f) := by
  intro c b c' h
  obtain ⟨a, c₁, ha, h⟩ := of_bind_eq_ok h
  obtain ⟨hopens, hbehind⟩ := hp ha
  exact ⟨hopens, fun line => (bind_of_eq_ok (hbehind line) f).trans h⟩

/-- What begins by passing a token goes on from the same cursor. -/
theorem advance_bind_behind (h : c.current.kind ≠ .eof) (f : Token → Parse β)
    (line : Option Nat) : (advance >>= f) (c.behind line) = (advance >>= f) c := by
  rw [advance_bind, advance_bind, Cursor.next_behind h]
  rfl

theorem expect_bind_behind {kind : TokenKind} (h : c.current.kind = kind) (hkind : kind ≠ .eof)
    (wanted : String) (f : Unit → Parse β) (line : Option Nat) :
    (expect kind wanted >>= f) (c.behind line) = (expect kind wanted >>= f) c := by
  have hbehind : (c.behind line).current.kind = kind := h
  rw [expect_bind, expect_bind, if_pos h, if_pos hbehind, Cursor.next_behind (h ▸ hkind)]

theorem parenthesized_behind (r : Rules) (hopen : c.current.kind = .symbol .leftParen)
    (line : Option Nat) : parenthesized r (c.behind line) = parenthesized r c := by
  have hrest : (c.behind line).rest = c.rest := rfl
  rw [parenthesized, get_bind, get_bind, hrest]
  split
  · exact expect_bind_behind hopen (by simp) _ _ line
  · exact advance_bind_behind (by simp [hopen]) _ line

theorem primary_opens (r : Rules) : Opens (primary r) := by
  intro c e c' h
  have hcurrent : ∀ line, (c.behind line).current = c.current := fun _ => rfl
  suffices hbehind : opensExpression c.current.kind = true ∧
      ∀ line, primary r (c.behind line) = primary r c from
    ⟨hbehind.1, fun line => (hbehind.2 line).trans h⟩
  simp only [primary, peek_bind, hcurrent] at h ⊢
  -- All forms of operand begin with the token that tells them apart; other tokens are at fault.
  cases hkind : c.current.kind with
  | number | string | bool | null | ident =>
    exact ⟨rfl, fun line => advance_bind_behind (by simp [hkind]) _ line⟩
  | symbol sym =>
    rw [hkind] at h
    cases sym with
    | leftParen => exact ⟨rfl, parenthesized_behind r hkind⟩
    | leftBracket => exact ⟨rfl, fun line => advance_bind_behind (by simp [hkind]) _ line⟩
    | leftBrace => exact ⟨rfl, fun line => expect_bind_behind hkind (by simp) _ _ line⟩
    | _ => cases h
  | keyword word =>
    rw [hkind] at h
    cases word with
    | functionKw => exact ⟨rfl, fun line => advance_bind_behind (by simp [hkind]) _ line⟩
    | _ => cases h
  | error | eof =>
    rw [hkind] at h
    cases h

theorem unaryRule_opens (r : Rules) : Opens (unaryRule r) := by
  intro c e c' h
  have hcurrent : ∀ line, (c.behind line).current = c.current := fun _ => rfl
  have hsuffixed : Opens (suffixed r) := (primary_opens r).bind _
  simp only [unaryRule, peek_bind, hcurrent] at h ⊢
  cases hkind : c.current.kind with
  | symbol sym =>
    rw [hkind] at h
    cases sym with
    | minus | bang | plusPlus | minusMinus =>
      refine ⟨rfl, fun line => ?_⟩
      exact (advance_bind_behind (by simp [hkind]) _ line).trans h
    | _ =>
      have hopens := hsuffixed h
      rwa [hkind] at hopens
  | _ =>
    rw [hkind] at h
    have hopens := hsuffixed h
    rwa [hkind] at hopens

theorem infixRule_opens (r : Rules) (rows : List (List (Symbol × InfixOp))) :
    Opens (infixRule r rows) := by
  induction rows with
  | nil => exact unaryRule_opens r
  | cons row tighter ih => exact ih.bind _

theorem assignmentRule_opens (r : Rules) : Opens (assignmentRule r) :=
  ((infixRule_opens r _).bind _).bind _

/-- What opens an expression does not keep `return` from its value, with one exception. -/
theorem not_bare_of_opens {kind : TokenKind} (h : opensExpression kind = true) :
    (kind == .symbol .semicolon || kind == .symbol .rightBrace || kind == .eof ||
      kind.startsStatement) = (kind == .keyword .functionKw) := by
  cases kind with
  | symbol sym => cases sym <;> first | rfl | cases h
  | keyword word => cases word <;> first | rfl | cases h
  | error | eof => cases h
  | _ => rfl

/-! ## One statement and semicolons -/

theorem statements_of_semicolon {passes : Nat} (h : c.current.kind = .symbol .semicolon) :
    statements r (passes + 1) c = statements r passes c.next :=
  (statements_succ (Cursor.rest_ne_nil_of_kind (by simp [h])) passes).trans (if_pos h)

/-- Semicolons alone are no statements. -/
theorem statements_of_semicolons {passes : Nat} (h : ∀ t ∈ c.rest, t.kind = .symbol .semicolon) :
    statements r passes c = ⟨[], []⟩ := by
  induction passes generalizing c with
  | zero => rfl
  | succ passes ih =>
    obtain ⟨line, rest, finish⟩ := c
    cases rest with
    | nil => rfl
    | cons t ts =>
      have ht : (Cursor.mk line (t :: ts) finish).current.kind = .symbol .semicolon :=
        h t List.mem_cons_self
      rw [statements_of_semicolon ht]
      exact ih fun u hu => h u (List.mem_cons_of_mem t hu)

theorem Statements.semicolons : ∀ {ts : List Token} {stmts : List Stmt},
    Statements ts stmts → stmts = [] → ∀ t ∈ ts, t.kind = .symbol .semicolon
  | _, _, .nil, _ => by simp
  | _, _, .semicolon ht h, hnone => List.forall_mem_cons.mpr ⟨ht, h.semicolons hnone⟩

theorem ended_of_eq_ok {rule : Parse Stmt} {s : Stmt} {c' : Cursor} (h : rule c = .ok s c') :
    ended rule c =
      .ok s (if c'.current.kind = .symbol .semicolon then c'.next else c') := by
  rw [ended, bind_of_eq_ok h, accept_bind]
  split <;> rfl

/-- A semicolon that ends a statement is one of those that may follow it. -/
theorem semicolons_behind_ended :
    (∀ t ∈ (if c.current.kind = .symbol .semicolon then c.next else c).rest,
      t.kind = .symbol .semicolon) ↔ ∀ t ∈ c.rest, t.kind = .symbol .semicolon := by
  obtain ⟨line, rest, finish⟩ := c
  cases rest with
  | nil => simp [Cursor.current]
  | cons t ts =>
    by_cases ht : t.kind = .symbol .semicolon
    · simp [Cursor.current, Cursor.next, ht]
    · simp [Cursor.current, ht]

theorem statements_of_word {word : Keyword} (h : c.current.kind = .keyword word) (passes : Nat) :
    statements r (passes + 1) c =
      match r.stmt c with
      | .ok stmt c' =>
        let more := statements r passes c'
        ⟨stmt :: more.statements, more.diagnostics⟩
      | .error d c' =>
        let more := statements r passes (recover c')
        ⟨more.statements, d :: more.diagnostics⟩ := by
  have hkind : c.current.kind ≠ .symbol .semicolon := by simp [h]
  exact (statements_succ (Cursor.rest_ne_nil_of_kind (by simp [h])) passes).trans (if_neg hkind)

/-- A program that begins with a word is one statement if that statement is read in full and
semicolons are all that follows. -/
theorem statements_eq_single_iff (stmt : Stmt) (hr : r.Sound) {word : Keyword} {rule : Parse Stmt}
    {passes : Nat} (hpasses : c.rest.length ≤ passes + 1) (hword : c.current.kind = .keyword word)
    (hrule : r.stmt c = ended rule c) :
    statements r (passes + 1) c = ⟨[stmt], []⟩ ↔
      ∃ c', rule c = .ok stmt c' ∧ ∀ t ∈ c'.rest, t.kind = .symbol .semicolon := by
  rw [statements_of_word hword]
  constructor
  · intro h
    cases hstmt : r.stmt c with
    | error d c' =>
      rw [hstmt] at h
      cases (Parsed.mk.inj h).2
    | ok stmt' c' =>
      have htaken := stmt_length_lt hr hstmt
      simp only [hstmt, Parsed.mk.injEq, List.cons.injEq] at h
      obtain ⟨⟨rfl, hnone⟩, hclean⟩ := h
      have hrest := (statements_derived hr (by omega) hclean).semicolons hnone
      rw [hrule] at hstmt
      obtain ⟨stmt, c₁, hread, h⟩ := of_bind_eq_ok hstmt
      have hended := (ended_of_eq_ok hread).symm.trans hstmt
      cases hended
      exact ⟨c₁, hread, semicolons_behind_ended.mp hrest⟩
  · rintro ⟨c', hread, hrest⟩
    rw [hrule, ended_of_eq_ok hread]
    simp only [statements_of_semicolons (semicolons_behind_ended.mpr hrest)]

/-! ## The statements -/

/-- The tokens behind an expression that ends with its statement. -/
def closing (semicolon finish : Position) : List Token :=
  [⟨.symbol .semicolon, ";", semicolon⟩, ⟨.eof, "", finish⟩]

/-- The tokens of `let name = E;`, each where `p` says. -/
def declarationOf (name : String) (E : List Token) (p : Nat → Position) : List Token :=
  ⟨.keyword .letKw, "let", p 0⟩ :: ⟨.ident name, name, p 1⟩ :: ⟨.symbol .assign, "=", p 2⟩ ::
    (E ++ closing (p 3) (p 4))

/-- The tokens of a word, an expression and a semicolon, each where `p` says. -/
def wordWith (word : Keyword) (E : List Token) (p : Nat → Position) : List Token :=
  ⟨.keyword word, word.spelling, p 0⟩ :: (E ++ closing (p 1) (p 2))

/-- The expression and its semicolon, up to the end of input. -/
def held (E : List Token) (semicolon finish : Position) : List Token :=
  (E ++ closing semicolon finish).takeWhile (·.kind != .eof)

/-- What stands behind the expressions has no layout of its own. -/
theorem AlikeAfter.held {line line' : Option Nat} (h : AlikeAfter line line' E E')
    (a b a' b' : Position) : AlikeAfter line line' (held E a b) (held E' a' b') := by
  induction h with
  | nil => exact .cons rfl nofun .nil
  | cons hlook hline _ ih =>
    simp only [Syntax.held, List.cons_append, List.takeWhile_cons, Token.kind_eq hlook]
    split
    · exact .cons hlook (fun hop => hline (Token.kind_eq hlook ▸ hop)) ih
    · exact .nil

theorem AlikeAfter.forall_kind {line line' : Option Nat} {ts ts' : List Token} {kind : TokenKind}
    (h : AlikeAfter line line' ts ts') (hts : ∀ t ∈ ts, t.kind = kind) :
    ∀ t ∈ ts', t.kind = kind := by
  induction h with
  | nil => exact hts
  | cons hlook _ _ ih =>
    rw [List.forall_mem_cons] at hts ⊢
    exact ⟨Token.kind_eq hlook ▸ hts.1, ih hts.2⟩

/-! ## The values of statements -/

/-- The rule of expressions as the statements of a program have it. -/
def expressionRule (passes : Nat) : Parse Expr := (Rules.atDepth passes (maxNesting - 1)).assignment

theorem expressionRule_opens (passes : Nat) : Opens (expressionRule passes) :=
  assignmentRule_opens _

/-- The expression is read from the cursor, and what is left is semicolons. -/
def ReadsAll (p : Parse Expr) (c : Cursor) (e : Expr) : Prop :=
  ∃ c', p c = .ok e c' ∧ ∀ t ∈ c'.rest, t.kind = .symbol .semicolon

theorem ReadsAll.behind {p : Parse Expr} {e : Expr} (hp : Opens p) (h : ReadsAll p c e)
    (line : Option Nat) : ReadsAll p (c.behind line) e := by
  obtain ⟨c', hread, hrest⟩ := h
  exact ⟨c', (hp hread).2 line, hrest⟩

theorem ReadsAll.opens {p : Parse Expr} {e : Expr} (hp : Opens p) (h : ReadsAll p c e) :
    opensExpression c.current.kind = true := by
  obtain ⟨c', hread, _⟩ := h
  exact (hp hread).1

/-- Neither the token before the expression matters nor the bound, if there are passes for all
tokens. -/
theorem ReadsAll.alike {passes passes' : Nat} {c' : Cursor} {e : Expr}
    (hlayout : SameLayout c.rest c'.rest) (hpasses : c.rest.length ≤ passes)
    (hpasses' : c'.rest.length ≤ passes') (h : ReadsAll (expressionRule passes) c e) :
    ∃ e', e'.erase = e.erase ∧ ReadsAll (expressionRule passes') c' e' := by
  -- With no token before either cursor they are alike; the tokens before them are put back below.
  have hc : (c.behind none).Alike (c'.behind none) := hlayout
  obtain ⟨c₁, hread, hrest⟩ := h.behind (expressionRule_opens passes) none
  have hrules := Rules.alike_atDepth hpasses (hc.length_eq ▸ hpasses') (maxNesting - 1)
  have hend : EndAlike c.rest.length Expr.erase (expressionRule passes (c.behind none))
      (expressionRule passes' (c'.behind none)) := hrules.assignment _ _ hc (Nat.le_refl _)
  rw [hread] at hend
  generalize hread' : expressionRule passes' (c'.behind none) = out' at hend
  cases hend with
  | @ok _ e' _ c₁' he hc₁ _ =>
    have hall : ReadsAll (expressionRule passes') (c'.behind none) e' :=
      ⟨c₁', hread', AlikeAfter.forall_kind hc₁ hrest⟩
    exact ⟨e', he.symm, hall.behind (expressionRule_opens passes') c'.previousLine⟩

/-- A program that begins with a word and goes on with an expression is one statement if the
expression is all there is. -/
theorem parse_eq_single_iff (rule : Rules → Parse Stmt) {word : Keyword} {build : Expr → Stmt}
    {tokens : List Token} {c₁ : Cursor} {stmt : Stmt}
    (hword : (Cursor.ofTokens tokens).current.kind = .keyword word)
    (hstmt : ∀ r, stmtRule r (Cursor.ofTokens tokens) = ended (rule r) (Cursor.ofTokens tokens))
    (hrule : ∀ r, rule r (Cursor.ofTokens tokens) =
      (r.assignment >>= fun e => pure (build e)) c₁) :
    parse tokens = ⟨[stmt], []⟩ ↔ ∃ e, stmt = build e ∧
      ReadsAll (expressionRule (Cursor.ofTokens tokens).rest.length) c₁ e := by
  obtain ⟨passes, hpasses⟩ : ∃ passes, (Cursor.ofTokens tokens).rest.length = passes + 1 := by
    cases hrest : (Cursor.ofTokens tokens).rest with
    | nil => simp [Cursor.current, hrest] at hword
    | cons t ts => exact ⟨ts.length, rfl⟩
  have hsound := Rules.sound_atDepth (Cursor.ofTokens tokens).rest.length maxNesting
  have hsingle := statements_eq_single_iff stmt hsound (Nat.le_of_eq hpasses) hword (hstmt _)
  rw [← hpasses, hrule] at hsingle
  refine hsingle.trans ⟨?_, ?_⟩
  · rintro ⟨c', h, hrest⟩
    obtain ⟨e, c₂, hread, h⟩ := of_bind_eq_ok h
    cases h
    exact ⟨e, rfl, c', hread, hrest⟩
  · rintro ⟨e, rfl, c', hread, hrest⟩
    exact ⟨c', bind_of_eq_ok hread _, hrest⟩

theorem parse_declarationOf_iff {name : String} {p : Nat → Position} {stmt : Stmt} :
    parse (declarationOf name E p) = ⟨[stmt], []⟩ ↔
      ∃ e, stmt = .declare name false (some e) (p 0) ∧
        ReadsAll (expressionRule ((held E (p 3) (p 4)).length + 3))
          (Cursor.ofTokens (declarationOf name E p)).next.next.next e :=
  parse_eq_single_iff declaration rfl (fun _ => rfl) fun _ => rfl

theorem parse_throwKw_iff {q : Nat → Position} {stmt : Stmt} :
    parse (wordWith .throwKw E q) = ⟨[stmt], []⟩ ↔ ∃ e, stmt = .throw e (q 0) ∧
      ReadsAll (expressionRule ((held E (q 1) (q 2)).length + 1))
        (Cursor.ofTokens (wordWith .throwKw E q)).next e :=
  parse_eq_single_iff throwRule rfl (fun _ => rfl) fun _ => rfl

theorem kind_behind_word (word : Keyword) (q : Nat → Position) :
    (Cursor.ofTokens (wordWith word E q)).next.current.kind =
      (E.head?.map (·.kind)).getD (.symbol .semicolon) := by
  have hrest : (Cursor.ofTokens (wordWith word E q)).next.rest = held E (q 1) (q 2) := rfl
  rw [Cursor.current, hrest, held]
  cases E with
  | nil => rfl
  | cons t ts =>
    rw [List.cons_append, List.takeWhile_cons]
    split
    · rfl
    · next heof => exact (Decidable.not_not.mp fun hne => heof (bne_iff_ne.mpr hne)).symm

/-- A `return` has a value, as a `throw` has, if what begins the value is not `function`. -/
theorem parse_returnKw_iff {q : Nat → Position} {stmt : Stmt}
    (hopens : opensExpression (Cursor.ofTokens (wordWith .returnKw E q)).next.current.kind = true)
    (hword : (Cursor.ofTokens (wordWith .returnKw E q)).next.current.kind ≠ .keyword .functionKw) :
    parse (wordWith .returnKw E q) = ⟨[stmt], []⟩ ↔ ∃ e, stmt = .ret (some e) (q 0) ∧
      ReadsAll (expressionRule ((held E (q 1) (q 2)).length + 1))
        (Cursor.ofTokens (wordWith .returnKw E q)).next e := by
  refine parse_eq_single_iff returnRule rfl (fun _ => rfl) fun r => ?_
  have hbare := (not_bare_of_opens hopens).trans (beq_eq_false_iff_ne.mpr hword)
  rw [returnRule, advance_bind, peek_bind]
  simp only [hbare]
  rfl

/-- In front of `function` a `return` is a statement without a value. -/
theorem parse_returnKw_of_function {q : Nat → Position}
    (hkind : (Cursor.ofTokens (wordWith .returnKw E q)).next.current.kind =
      .keyword .functionKw) :
    ∃ more, (parse (wordWith .returnKw E q)).statements = .ret none (q 0) :: more := by
  have hread : ∀ r, returnRule r (Cursor.ofTokens (wordWith .returnKw E q)) =
      .ok (.ret none (q 0)) (Cursor.ofTokens (wordWith .returnKw E q)).next := by
    intro r
    rw [returnRule, advance_bind, peek_bind]
    simp only [hkind]
    rfl
  have hstmt : ∀ r, stmtRule r (Cursor.ofTokens (wordWith .returnKw E q)) =
      .ok (.ret none (q 0)) (Cursor.ofTokens (wordWith .returnKw E q)).next := by
    intro r
    rw [show stmtRule r _ = ended (returnRule r) _ from rfl, ended_of_eq_ok (hread r), hkind,
      if_neg (by simp)]
  have hword : (Cursor.ofTokens (wordWith .returnKw E q)).current.kind = .keyword .returnKw := rfl
  have hparse := statements_of_word hword (held E (q 1) (q 2)).length
    (r := Rules.atDepth ((held E (q 1) (q 2)).length + 1) maxNesting)
  rw [show Rules.stmt _ _ = _ from hstmt _] at hparse
  exact ⟨_, congrArg Parsed.statements hparse⟩

/-- What is the value of a declaration is also thrown and returned by the statements that hold it,
but `return` has no value in front of `function`. -/
theorem expression_in_statements {name : String} {p q : Nat → Position} {start : Position}
    (hE : SameLayout E E')
    (h : parse (declarationOf name E p) = ⟨[.declare name false (some t) start], []⟩) :
    (∃ t', t'.erase = t.erase ∧ parse (wordWith .throwKw E' q) = ⟨[.throw t' (q 0)], []⟩) ∧
      if E'.head?.map (·.kind) = some (.keyword .functionKw) then
        ∃ more, (parse (wordWith .returnKw E' q)).statements = .ret none (q 0) :: more
      else
        ∃ t', t'.erase = t.erase ∧
          parse (wordWith .returnKw E' q) = ⟨[.ret (some t') (q 0)], []⟩ := by
  obtain ⟨e, hdeclare, hread⟩ := parse_declarationOf_iff.mp h
  cases hdeclare
  -- The value is read behind any word; what differs is whether the statement asks for one.
  have hvalue : ∀ word, ∃ t', t'.erase = t.erase ∧
      ReadsAll (expressionRule ((held E' (q 1) (q 2)).length + 1))
        (Cursor.ofTokens (wordWith word E' q)).next t' := by
    intro word
    have hlayout : SameLayout (Cursor.ofTokens (declarationOf name E p)).next.next.next.rest
        (Cursor.ofTokens (wordWith word E' q)).next.rest :=
      AlikeAfter.held hE (p 3) (p 4) (q 1) (q 2)
    exact hread.alike hlayout (Nat.le_add_right (held E _ _).length 3)
      (Nat.le_add_right (held E' (q 1) (q 2)).length 1)
  have hkind := kind_behind_word (E := E') .returnKw q
  constructor
  · obtain ⟨t', ht', hread'⟩ := hvalue .throwKw
    exact ⟨t', ht', parse_throwKw_iff.mpr ⟨t', rfl, hread'⟩⟩
  · split
    · next hfunction =>
      rw [hfunction] at hkind
      exact parse_returnKw_of_function hkind
    · next hfunction =>
      obtain ⟨t', ht', hread'⟩ := hvalue .returnKw
      have hopens := hread'.opens (expressionRule_opens _)
      refine ⟨t', ht', (parse_returnKw_iff hopens fun hword => hfunction ?_).mpr ⟨t', rfl, hread'⟩⟩
      rw [hword] at hkind
      cases hhead : E'.head?.map (·.kind) with
      | none => simp [hhead] at hkind
      | some kind => simpa [hhead] using hkind.symm

/-- The tokens of `a++`, on one line. -/
def updateTokens (line : Nat) : List Token :=
  [⟨.ident "a", "a", ⟨line, 8⟩⟩, ⟨.symbol .plusPlus, "++", ⟨line, 9⟩⟩]

/-- The tree of `a++` on the first line. -/
def updateTree : Expr := .update .increment false (.ident "a" ⟨1, 8⟩) ⟨1, 8⟩

theorem update_in_statements :
    let p : Nat → Position := fun i => ⟨1, i⟩
    let q : Nat → Position := fun i => ⟨2, i⟩
    parse (declarationOf "x" (updateTokens 1) p) =
      ⟨[.declare "x" false (some updateTree) (p 0)], []⟩ ∧
    (∃ t', t'.erase = updateTree.erase ∧
      parse (wordWith .throwKw (updateTokens 2) q) = ⟨[.throw t' (q 0)], []⟩) ∧
    ∃ t', t'.erase = updateTree.erase ∧
      parse (wordWith .returnKw (updateTokens 2) q) = ⟨[.ret (some t') (q 0)], []⟩ := by
  intro p q
  have hlayout : SameLayout (updateTokens 1) (updateTokens 2) :=
    .cons rfl nofun (.cons rfl (fun _ => rfl) .nil)
  have hvalue : parse (declarationOf "x" (updateTokens 1) p) =
      ⟨[.declare "x" false (some updateTree) (p 0)], []⟩ := rfl
  exact ⟨hvalue, expression_in_statements hlayout hvalue⟩

/-- The tokens of `function () {}`. -/
def functionTokens : List Token :=
  [.keyword .functionKw, .symbol .leftParen, .symbol .rightParen, .symbol .leftBrace,
    .symbol .rightBrace].map (⟨·, "", ⟨1, 8⟩⟩)

/-- A function without a name is the value of a `let` and not the value of a `return`. -/
theorem function_not_returned :
    let p : Nat → Position := fun i => ⟨1, i⟩
    (∃ t, parse (declarationOf "f" functionTokens p) = ⟨[.declare "f" false (some t) (p 0)], []⟩) ∧
      ∀ t start, parse (wordWith .returnKw functionTokens p) ≠ ⟨[.ret (some t) start], []⟩ := by
  intro p
  refine ⟨⟨_, rfl⟩, fun t start h => ?_⟩
  obtain ⟨more, hbare⟩ := parse_returnKw_of_function (E := functionTokens) (q := p) rfl
  rw [h] at hbare
  cases hbare

end Quill.Syntax
