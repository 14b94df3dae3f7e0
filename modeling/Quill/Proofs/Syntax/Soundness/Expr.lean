import Quill.Proofs.Syntax.Derivation
import Quill.Proofs.Syntax.Steps

/-!
# Expressions that parse are derived

Every rule that succeeds has passed tokens from which the grammar derives what it returned:
`Yields p D` says so for a rule and the relation of its part of the grammar. There is one statement
for each rule, in the order in which the rules are built on each other, and each is proved from the
statements of the rules it calls. The four counted rules are assumed to be sound one level deeper
(`Rules.Sound`); induction on the levels removes the assumption, since beyond the last level every
rule fails.

A rule that has looked at the first token before it is called, and passes it unseen, is sound where
that token is what the caller saw: its statement carries the kind of the token at the cursor.
-/

set_option autoImplicit false

namespace Quill.Syntax

variable {α β : Type} {c c' : Cursor} {r : Rules}

/-- The tokens between two cursors stand in a relation to a result. -/
def Cursor.Spells (D : List Token → α → Prop) (c : Cursor) (a : α) (c' : Cursor) : Prop :=
  ∃ ts, c.Passes ts c' ∧ D ts a

/-- What the rule returns is derived from the tokens that it passes. -/
def Yields (p : Parse α) (D : List Token → α → Prop) : Prop :=
  ∀ ⦃c : Cursor⦄ ⦃a : α⦄ ⦃c' : Cursor⦄, p c = .ok a c' → c.Spells D a c'

/-- The four counted rules yield what the grammar derives. -/
structure Rules.Sound (r : Rules) : Prop where
  stmt : Yields r.stmt Statement
  assignment : Yields r.assignment (Derives .assignment)
  ternary : Yields r.ternary (Derives .ternary)
  unary : Yields r.unary (Derives .unary)

/-! ## Chains and repetitions -/

theorem Cursor.Spells.mono {D E : List Token → α → Prop} {a : α} (h : c.Spells D a c')
    (himp : ∀ ts, D ts a → E ts a) : c.Spells E a c' := by
  obtain ⟨ts, hts, d⟩ := h
  exact ⟨ts, hts, himp ts d⟩

/-- The first rule of a chain and its tokens, and the rest of the chain after them. -/
theorem Yields.of_bind {p : Parse α} {D : List Token → α → Prop} {f : α → Parse β} {b : β}
    (hp : Yields p D) (h : (p >>= f) c = .ok b c') :
    ∃ a c₁ ts, c.Passes ts c₁ ∧ D ts a ∧ f a c₁ = .ok b c' := by
  obtain ⟨a, c₁, ha, h⟩ := of_bind_eq_ok h
  obtain ⟨ts, hts, d⟩ := hp ha
  exact ⟨a, c₁, ts, hts, d, h⟩

theorem identifier_yields : Yields identifier Name := by
  intro c name c' h
  obtain ⟨hname, rfl⟩ := of_identifier_eq_ok h
  exact ⟨_, .next hname nofun, c.current, hname, rfl⟩

/-- The items found, after those that were there. -/
theorem spells_of_commaList {close : Symbol} {item : Parse α} {D : List Token → α → Prop}
    (hitem : Yields item D) {passes : Nat} {done xs : List α}
    (h : commaList close item passes done c = .ok xs c') :
    ∃ as, xs = done.reverse ++ as ∧ c.Spells (CommaList D) as c' := by
  induction passes generalizing done c with
  | zero =>
    -- Out of passes the list just ends; whether it may end here is for the caller to see.
    cases h
    exact ⟨[], (List.append_nil _).symm, [], .refl _, .nil⟩
  | succ passes ih =>
    simp only [commaList, check_bind, atEnd_bind] at h
    split at h
    · cases h
      exact ⟨[], (List.append_nil _).symm, [], .refl _, .nil⟩
    · obtain ⟨a, c₁, ts, hts, da, h⟩ := hitem.of_bind h
      rcases of_accept_bind h with ⟨hcomma, h⟩ | ⟨-, h⟩
      · obtain ⟨as, rfl, us, hus, das⟩ := ih h
        exact ⟨a :: as, by simp, _, hts.trans (.cons hcomma nofun hus), .more da hcomma das⟩
      · cases h
        exact ⟨[a], by simp, ts, hts, .last da⟩

theorem commaList_yields {close : Symbol} {item : Parse α} {D : List Token → α → Prop}
    (hitem : Yields item D) (passes : Nat) :
    Yields (commaList close item passes []) (CommaList D) := by
  intro c xs c' h
  obtain ⟨as, rfl, hspells⟩ := spells_of_commaList hitem h
  exact hspells

/-- A repetition keeps what each pass keeps. The relation holds of all tokens since the start, so a
pass can look back at them. -/
theorem spells_of_extend {more : α → Parse (Option α)} {D : List Token → α → Prop} {start : Cursor}
    (hmore : ∀ {c c' : Cursor} {x : α} {y : Option α}, start.Spells D x c → more x c = .ok y c' →
      start.Spells D (y.getD x) c')
    {passes : Nat} {x y : α} (hx : start.Spells D x c) (h : extend more passes x c = .ok y c') :
    start.Spells D y c' := by
  induction passes generalizing x c with
  | zero =>
    cases h
    exact hx
  | succ passes ih =>
    obtain ⟨z, c₁, hz, h⟩ := of_bind_eq_ok h
    have hnext := hmore hx hz
    cases z with
    | none =>
      cases h
      exact hnext
    | some z => exact ih hnext h

/-! ## Blocks and functions -/

/-- The statements found, after those that were there. -/
theorem spells_of_blockItems (hr : r.Sound) {passes : Nat} {done all : List Stmt}
    (h : extend (blockItem r) passes done c = .ok all c') :
    ∃ stmts, all.reverse = done.reverse ++ stmts ∧ c.Spells Statements stmts c' := by
  induction passes generalizing done c with
  | zero =>
    cases h
    exact ⟨[], (List.append_nil _).symm, [], .refl _, .nil⟩
  | succ passes ih =>
    obtain ⟨item, c₁, hitem, h⟩ := of_bind_eq_ok h
    simp only [blockItem, check_bind, atEnd_bind] at hitem
    split at hitem
    · cases hitem
      cases h
      exact ⟨[], (List.append_nil _).symm, [], .refl _, .nil⟩
    · rcases of_accept_bind hitem with ⟨hsemi, hitem⟩ | ⟨-, hitem⟩
      · cases hitem
        obtain ⟨stmts, heq, ts, hts, d⟩ := ih h
        exact ⟨stmts, heq, _, .cons hsemi nofun hts, .semicolon hsemi d⟩
      · obtain ⟨stmt, c₂, ts, hts, dstmt, hitem⟩ := hr.stmt.of_bind hitem
        cases hitem
        obtain ⟨stmts, heq, us, hus, d⟩ := ih h
        exact ⟨stmt :: stmts, by simp [heq], _, hts.trans hus, .cons dstmt d⟩

theorem block_yields (hr : r.Sound) : Yields (block r) Block := by
  intro c stmts c' h
  obtain ⟨hopen, h⟩ := of_expect_bind h
  obtain ⟨done, c₁, hdone, h⟩ := of_bind_eq_ok h
  obtain ⟨stmts, heq, ts, hts, d⟩ := spells_of_blockItems hr hdone
  obtain ⟨hclose, h⟩ := of_expect_bind h
  cases h
  rw [heq]
  exact ⟨_, .cons hopen nofun (hts.trans (.next hclose nofun)), .mk hopen d hclose⟩

theorem params_yields (r : Rules) : Yields (params r) (CommaList Name) :=
  commaList_yields identifier_yields r.passes

theorem functionRest_yields (hr : r.Sound) (name : Option String) (position : Position) :
    Yields (functionRest r name position) (FunctionRest name position) := by
  intro c definition c' h
  obtain ⟨hopen, h⟩ := of_expect_bind h
  obtain ⟨ps, c₁, ts, hts, dps, h⟩ := (params_yields r).of_bind h
  obtain ⟨hclose, h⟩ := of_expect_bind h
  obtain ⟨body, c₂, bs, hbs, dbody, h⟩ := (block_yields hr).of_bind h
  cases h
  exact ⟨_, .cons hopen nofun (hts.trans (.cons hclose nofun hbs)), .mk hopen dps hclose dbody⟩

theorem arrowBody_yields (hr : r.Sound) : Yields (arrowBody r) ArrowBody := by
  intro c body c' h
  simp only [arrowBody, check_bind] at h
  split at h
  · obtain ⟨stmts, c₁, ts, hts, d, h⟩ := (block_yields hr).of_bind h
    cases h
    exact ⟨ts, hts, .block d⟩
  · obtain ⟨e, c₁, ts, hts, d, h⟩ := hr.assignment.of_bind h
    cases h
    exact ⟨ts, hts, .expr d⟩

theorem arrowFunction_yields (hr : r.Sound) : Yields (arrowFunction r) (Derives .primary) := by
  intro c e c' h
  simp only [arrowFunction, peek_bind] at h
  obtain ⟨hopen, h⟩ := of_expect_bind h
  obtain ⟨ps, c₁, ts, hts, dps, h⟩ := (params_yields r).of_bind h
  obtain ⟨hclose, h⟩ := of_expect_bind h
  obtain ⟨harrow, h⟩ := of_expect_bind h
  obtain ⟨body, c₂, bs, hbs, dbody, h⟩ := (arrowBody_yields hr).of_bind h
  cases h
  exact ⟨_, .cons hopen nofun (hts.trans (.cons hclose nofun (.cons harrow nofun hbs))),
    .arrow hopen dps hclose harrow dbody⟩

/-! ## Operands -/

theorem propertyKey_of_eq_some {t : Token} {key : String}
    (h : propertyKey? t = some key) : PropertyKey t key := by
  unfold propertyKey? at h
  split at h
  · next name hkind =>
    cases h
    exact .name (.ident hkind)
  · next value hkind =>
    cases h
    exact .string hkind
  · next value hkind =>
    cases h
    exact .number hkind
  · split at h
    · next hword =>
      cases h
      exact .name (.reserved hword)
    · cases h

theorem PropertyName.kind_ne_eof {t : Token} {name : String} (h : PropertyName t name) :
    t.kind ≠ .eof := by
  cases h with
  | ident hkind => simp [hkind]
  | reserved hword =>
    intro heof
    simp [heof, TokenKind.isKeyword] at hword

theorem PropertyKey.kind_ne_eof {t : Token} {key : String} (h : PropertyKey t key) :
    t.kind ≠ .eof := by
  cases h with
  | name hname => exact hname.kind_ne_eof
  | string hkind => simp [hkind]
  | number hkind => simp [hkind]

theorem property_yields (hr : r.Sound) : Yields (property r) Entry := by
  intro c entry c' h
  simp only [property, advance_bind] at h
  cases hkey : propertyKey? c.current with
  | none =>
    rw [hkey] at h
    cases h
  | some key =>
    have dkey := propertyKey_of_eq_some hkey
    rw [hkey] at h
    simp only [check_bind] at h
    split at h
    · next hshort =>
      -- Only a name can stand alone, and then it is the key as well.
      cases hkind : c.current.kind with
      | ident name =>
        simp only [propertyKey?, hkind] at hkey
        cases hkey
        cases h
        exact ⟨_, .next hkind nofun, .shorthand hkind⟩
      | _ => simp [hkind, TokenKind.isName] at hshort
    · obtain ⟨hcolon, h⟩ := of_expect_bind h
      obtain ⟨value, c₁, ts, hts, dvalue, h⟩ := hr.assignment.of_bind h
      cases h
      exact ⟨_, .cons rfl dkey.kind_ne_eof (.cons hcolon nofun hts), .keyed dkey hcolon dvalue⟩

theorem objectLiteral_yields (hr : r.Sound) : Yields (objectLiteral r) (Derives .primary) := by
  intro c e c' h
  simp only [objectLiteral, peek_bind] at h
  obtain ⟨hopen, h⟩ := of_expect_bind h
  obtain ⟨entries, c₁, ts, hts, d, h⟩ := (commaList_yields (property_yields hr) _).of_bind h
  obtain ⟨hclose, h⟩ := of_expect_bind h
  cases h
  exact ⟨_, .cons hopen nofun (hts.trans (.next hclose nofun)), .object hopen d hclose⟩

theorem spells_of_arrayLiteral (hr : r.Sound) {e : Expr}
    (hopen : c.current.kind = .symbol .leftBracket) (h : arrayLiteral r c = .ok e c') :
    c.Spells (Derives .primary) e c' := by
  simp only [arrayLiteral, advance_bind] at h
  obtain ⟨items, c₁, ts, hts, d, h⟩ := (commaList_yields hr.assignment _).of_bind h
  obtain ⟨hclose, h⟩ := of_expect_bind h
  cases h
  exact ⟨_, .cons hopen nofun (hts.trans (.next hclose nofun)), .array hopen d hclose⟩

theorem spells_of_parenthesized (hr : r.Sound) {e : Expr}
    (hopen : c.current.kind = .symbol .leftParen) (h : parenthesized r c = .ok e c') :
    c.Spells (Derives .primary) e c' := by
  simp only [parenthesized, get_bind] at h
  split at h
  · exact arrowFunction_yields hr h
  · simp only [advance_bind] at h
    obtain ⟨inner, c₁, ts, hts, d, h⟩ := hr.assignment.of_bind h
    obtain ⟨hclose, h⟩ := of_expect_bind h
    cases h
    exact ⟨_, .cons hopen nofun (hts.trans (.next hclose nofun)), .group hopen d hclose⟩

theorem spells_of_nameOrArrow (hr : r.Sound) {name : String} {e : Expr}
    (hname : c.current.kind = .ident name) (h : nameOrArrow r name c = .ok e c') :
    c.Spells (Derives .primary) e c' := by
  simp only [nameOrArrow, advance_bind] at h
  rcases of_accept_bind h with ⟨harrow, h⟩ | ⟨-, h⟩
  · obtain ⟨body, c₁, bs, hbs, dbody, h⟩ := (arrowBody_yields hr).of_bind h
    cases h
    exact ⟨_, .cons hname nofun (.cons harrow nofun hbs), .arrowOf hname harrow dbody⟩
  · cases h
    exact ⟨_, .next hname nofun, .ident hname⟩

theorem spells_of_functionExpr (hr : r.Sound) {e : Expr}
    (hword : c.current.kind = .keyword .functionKw) (h : functionExpr r c = .ok e c') :
    c.Spells (Derives .primary) e c' := by
  simp only [functionExpr, advance_bind, peek_bind] at h
  generalize hkind : c.next.current.kind = kind at h
  split at h
  · next name =>
    obtain ⟨definition, c₁, fs, hfs, d, h⟩ := (functionRest_yields hr _ _).of_bind h
    cases h
    have hname : Name [c.next.current] name := ⟨_, hkind, rfl⟩
    exact ⟨_, .cons hword nofun (.cons hkind nofun hfs),
      .function hword (.inr ⟨name, rfl, hname⟩) d⟩
  · obtain ⟨definition, c₁, fs, hfs, d, h⟩ := (functionRest_yields hr _ _).of_bind h
    cases h
    exact ⟨_, .cons hword nofun hfs, .function hword (.inl ⟨rfl, rfl⟩) d⟩

theorem primary_yields (hr : r.Sound) : Yields (primary r) (Derives .primary) := by
  intro c e c' h
  simp only [primary, peek_bind] at h
  generalize hkind : c.current.kind = kind at h
  split at h
  · cases h
    exact ⟨_, .next hkind nofun, .number hkind⟩
  · cases h
    exact ⟨_, .next hkind nofun, .string hkind⟩
  · cases h
    exact ⟨_, .next hkind nofun, .bool hkind⟩
  · cases h
    exact ⟨_, .next hkind nofun, .null hkind⟩
  · exact spells_of_nameOrArrow hr hkind h
  · exact spells_of_parenthesized hr hkind h
  · exact spells_of_arrayLiteral hr hkind h
  · exact objectLiteral_yields hr h
  · exact spells_of_functionExpr hr hkind h
  · cases h

/-! ## Operators -/

theorem symbol_of_updateOp? {kind : TokenKind} {op : UpdateOp} (h : updateOp? kind = some op) :
    kind = .symbol op.symbol := by
  unfold updateOp? at h
  split at h
  · cases h
    rfl
  · cases h
    rfl
  · cases h

theorem symbol_of_compoundOp? {kind : TokenKind} {op : BinaryOp} (h : compoundOp? kind = some op) :
    ∃ sym, kind = .symbol sym ∧ op.assignSymbol? = some sym := by
  unfold compoundOp? at h
  split at h <;> cases h <;> exact ⟨_, rfl, rfl⟩

theorem propertyName_yields :
    Yields propertyName fun ts name => ∃ t, ts = [t] ∧ PropertyName t name := by
  intro c name c' h
  simp only [propertyName, peek_bind] at h
  have hname : c' = c.next ∧ PropertyName c.current name := by
    generalize hkind : c.current.kind = kind at h
    split at h
    · cases h
      exact ⟨rfl, .ident hkind⟩
    · split at h
      · next hword =>
        cases h
        exact ⟨rfl, .reserved (hkind ▸ hword)⟩
      · cases h
  obtain ⟨rfl, hname⟩ := hname
  exact ⟨_, .next rfl hname.kind_ne_eof, _, rfl, hname⟩

/-- One more piece behind an operand whose tokens all lie behind the same start. -/
theorem spells_of_suffix (hr : r.Sound) {start : Cursor} {operand : Expr} {more : Option Expr}
    (hoperand : start.Spells (Derives .suffixed) operand c) (h : suffix r operand c = .ok more c') :
    start.Spells (Derives .suffixed) (more.getD operand) c' := by
  obtain ⟨ts, hts, d⟩ := hoperand
  simp only [suffix, peek_bind] at h
  generalize hkind : c.current.kind = kind at h
  split at h
  · simp only [advance_bind] at h
    obtain ⟨args, c₁, as, has, dargs, h⟩ := (commaList_yields hr.assignment _).of_bind h
    obtain ⟨hclose, h⟩ := of_expect_bind h
    cases h
    exact ⟨_, hts.trans (.cons hkind nofun (has.trans (.next hclose nofun))),
      .call d hkind dargs hclose⟩
  · simp only [advance_bind] at h
    obtain ⟨name, c₁, _, hname, ⟨t, rfl, dname⟩, h⟩ := propertyName_yields.of_bind h
    cases h
    exact ⟨_, hts.trans (.cons hkind nofun hname), .member d hkind dname⟩
  · simp only [advance_bind] at h
    obtain ⟨name, c₁, _, hname, ⟨t, rfl, dname⟩, h⟩ := propertyName_yields.of_bind h
    cases h
    exact ⟨_, hts.trans (.cons hkind nofun hname), .optionalMember d hkind dname⟩
  · simp only [advance_bind] at h
    obtain ⟨index, c₁, us, hus, dindex, h⟩ := hr.assignment.of_bind h
    obtain ⟨hclose, h⟩ := of_expect_bind h
    cases h
    exact ⟨_, hts.trans (.cons hkind nofun (hus.trans (.next hclose nofun))),
      .index d hkind dindex hclose⟩
  · cases hop : updateOp? kind with
    | some op =>
      rw [hop] at h
      have hsym := hkind.trans (symbol_of_updateOp? hop)
      simp only [get_bind] at h
      split at h
      · next hline =>
        cases h
        -- The cursor remembers where the operand ended.
        have hlast : ts.getLast?.map Token.line = some c.current.line := by
          rw [← hts.line_eq d.ne_nil]
          exact eq_of_beq hline
        exact ⟨_, hts.trans (.next hsym nofun), .updateAfter d hsym hlast⟩
      · cases h
        exact ⟨ts, hts, d⟩
    | none =>
      rw [hop] at h
      cases h
      exact ⟨ts, hts, d⟩

theorem suffixed_yields (hr : r.Sound) : Yields (suffixed r) (Derives .suffixed) := by
  intro c e c' h
  obtain ⟨operand, c₁, ts, hts, d, h⟩ := (primary_yields hr).of_bind h
  exact spells_of_extend (spells_of_suffix hr) ⟨ts, hts, .tighter d⟩ h

theorem unaryRule_yields (hr : r.Sound) : Yields (unaryRule r) (Derives .unary) := by
  intro c e c' h
  simp only [unaryRule, peek_bind] at h
  generalize hkind : c.current.kind = kind at h
  split at h
  · simp only [advance_bind] at h
    obtain ⟨operand, c₁, ts, hts, d, h⟩ := hr.unary.of_bind h
    cases h
    exact ⟨_, .cons hkind nofun hts, .unary hkind d⟩
  · simp only [advance_bind] at h
    obtain ⟨operand, c₁, ts, hts, d, h⟩ := hr.unary.of_bind h
    cases h
    exact ⟨_, .cons hkind nofun hts, .unary hkind d⟩
  · cases hop : updateOp? kind with
    | some op =>
      rw [hop] at h
      have hsym := hkind.trans (symbol_of_updateOp? hop)
      simp only [advance_bind] at h
      obtain ⟨target, c₁, ts, hts, d, h⟩ := hr.unary.of_bind h
      cases h
      exact ⟨_, .cons hsym nofun hts, .updateBefore hsym d⟩
    | none =>
      rw [hop] at h
      exact (suffixed_yields hr h).mono fun _ d => .tighter d

/-- A row of the parser stands at a level of the table: its operators are of that level, under their
spellings. -/
def RowAt (level : Level) (row : List (Symbol × InfixOp)) : Prop :=
  ∀ entry ∈ row, entry.2.level = level ∧ entry.2.symbol = entry.1

instance (level : Level) (row : List (Symbol × InfixOp)) : Decidable (RowAt level row) :=
  inferInstanceAs (Decidable (∀ entry ∈ row, entry.2.level = level ∧ entry.2.symbol = entry.1))

theorem RowAt.of_infixOp? {level : Level} {row : List (Symbol × InfixOp)} (hrow : RowAt level row)
    {kind : TokenKind} {op : InfixOp} (h : infixOp? row kind = some op) :
    op.level = level ∧ kind = .symbol op.symbol := by
  obtain ⟨sym, rfl, hmem⟩ := mem_of_infixOp? h
  obtain ⟨hlevel, hsym⟩ := hrow (sym, op) hmem
  exact ⟨hlevel, by rw [hsym]⟩

theorem infixRule_cons_yields {level : Level} {row : List (Symbol × InfixOp)}
    {rows : List (List (Symbol × InfixOp))} (hrow : RowAt level row)
    (hrows : Yields (infixRule r rows) (Derives level.tighter)) :
    Yields (infixRule r (row :: rows)) (Derives level) := by
  intro c e c' h
  obtain ⟨first, c₁, ts, hts, d, h⟩ := hrows.of_bind h
  -- The invariant of the repetition: what is built so far is derived from all the tokens since the
  -- first operand, at the level of the row.
  refine spells_of_extend ?_ ⟨ts, hts, .tighter d⟩ h
  intro c c' left more hleft h
  obtain ⟨ls, hls, dleft⟩ := hleft
  simp only [infixStep, peek_bind] at h
  cases hop : infixOp? row c.current.kind with
  | none =>
    rw [hop] at h
    cases h
    exact ⟨ls, hls, dleft⟩
  | some op =>
    rw [hop] at h
    obtain ⟨rfl, hsym⟩ := hrow.of_infixOp? hop
    simp only [advance_bind] at h
    obtain ⟨right, c₁, rs, hrs, dright, h⟩ := hrows.of_bind h
    cases h
    exact ⟨_, hls.trans (.cons hsym nofun hrs), .infixed dleft hsym dright⟩

/-- The rows of the parser are the levels of the table, in order. -/
theorem infixRule_yields (hr : r.Sound) : Yields (infixRule r infixRows) (Derives .or) := by
  refine infixRule_cons_yields (by decide) ?_
  refine infixRule_cons_yields (by decide) ?_
  refine infixRule_cons_yields (by decide) ?_
  refine infixRule_cons_yields (by decide) ?_
  refine infixRule_cons_yields (by decide) ?_
  refine infixRule_cons_yields (by decide) ?_
  exact unaryRule_yields hr

theorem ternaryRule_yields (hr : r.Sound) : Yields (ternaryRule r) (Derives .ternary) := by
  intro c e c' h
  obtain ⟨condition, c₁, cs, hcs, dcondition, h⟩ := (infixRule_yields hr).of_bind h
  rcases of_accept_bind h with ⟨hquestion, h⟩ | ⟨-, h⟩
  · obtain ⟨whenTrue, c₂, ts, hts, dtrue, h⟩ := hr.assignment.of_bind h
    obtain ⟨hcolon, h⟩ := of_expect_bind h
    obtain ⟨whenFalse, c₃, fs, hfs, dfalse, h⟩ := hr.ternary.of_bind h
    cases h
    exact ⟨_, hcs.trans (.cons hquestion nofun (hts.trans (.cons hcolon nofun hfs))),
      .ternary dcondition hquestion dtrue hcolon dfalse⟩
  · cases h
    exact ⟨cs, hcs, .tighter dcondition⟩

/-- The rest of an assignment needs a target that can be assigned to. -/
theorem spells_of_assignmentRest (hr : r.Sound) {target e : Expr} {build : Expr → Expr}
    {sym : Symbol} (hop : c.current.kind = .symbol sym)
    (h : assignmentRest r target build c = .ok e c') :
    target.isAssignable = true ∧
      ∃ value vs, e = build value ∧ c.Passes (c.current :: vs) c' ∧
        Derives .assignment vs value := by
  simp only [assignmentRest, advance_bind] at h
  split at h
  · next htarget =>
    obtain ⟨value, c₁, vs, hvs, d, h⟩ := hr.assignment.of_bind h
    cases h
    exact ⟨htarget, value, vs, rfl, .cons hop nofun hvs, d⟩
  · cases h

theorem assignmentRule_yields (hr : r.Sound) : Yields (assignmentRule r) (Derives .assignment) := by
  intro c e c' h
  obtain ⟨target, c₁, ts, hts, dtarget, h⟩ := (ternaryRule_yields hr).of_bind h
  simp only [peek_bind] at h
  split at h
  · next hkind =>
    obtain ⟨htarget, value, vs, rfl, hvs, dvalue⟩ := spells_of_assignmentRest hr hkind h
    exact ⟨_, hts.trans hvs, .assign dtarget htarget hkind dvalue⟩
  · cases hop : compoundOp? c₁.current.kind with
    | some op =>
      rw [hop] at h
      obtain ⟨sym, hkind, hsym⟩ := symbol_of_compoundOp? hop
      obtain ⟨htarget, value, vs, rfl, hvs, dvalue⟩ := spells_of_assignmentRest hr hkind h
      exact ⟨_, hts.trans hvs, .compound dtarget htarget hkind hsym dvalue⟩
    | none =>
      rw [hop] at h
      cases h
      exact ⟨ts, hts, .tighter dtarget⟩

end Quill.Syntax
