import Quill.Proofs.Syntax.Descent

/-!
# Reading back what was written

The parser reads the rendering of an expression back as that expression, positions aside.

The induction is on the expression. Its statement (`Readable`) is about the expression without
parentheses, read by the rule of its own level. Where that level nests to the left the rule may go
on behind the expression, so the statement leaves the repetition running: read as a left operand,
the expression is where the next pass begins. What an expression is read as in a place of another
level follows from it once and for all: by the rules in between if it holds together tightly enough,
and else in parentheses.
-/

set_option autoImplicit false

namespace Quill

open Syntax

variable {passes line n : Nat} {rest : List TokenKind}

namespace Syntax.Level

/-- The level that has to stop behind an expression of a level. -/
def inner (level : Level) : Level := if level.nestsLeft then level.tighter else level

theorem le_inner (level : Level) : level ≤ level.inner := by
  cases level <;> decide

theorem inner_eq_tighter {level : Level} (h : level.nestsLeft = true) :
    level.inner = level.tighter := if_pos h

end Syntax.Level

/-- The rule of the expression's own level reads its rendering. -/
def Readable (passes line : Nat) (e : Expr) : Prop :=
  ∀ n rest, e.nesting ≤ n → Stops e.level.inner rest →
    Grows passes line (e.level.rule (Rules.atDepth passes n))
      (e.level.step (Rules.atDepth passes n)) e.render e.Alike rest

namespace Readable

variable {e : Expr} {place : Level}

theorem reads (h : Readable passes line e) (hn : e.nesting ≤ n) (hstop : Stops e.level rest) :
    Reads passes line (e.level.rule (Rules.atDepth passes n)) e.render e.Alike rest :=
  (h n rest hn (hstop.mono e.level.le_inner)).reads (step_stops hstop)

/-- An expression is read as an assignment whatever its level is. -/
theorem assignment (h : Readable passes line e) (hn : e.nesting ≤ n)
    (hstop : Stops .assignment rest) :
    Reads passes line (Level.assignment.rule (Rules.atDepth passes n)) e.render e.Alike rest := by
  have hle : Level.assignment ≤ e.level := Nat.zero_le _
  exact (h.reads hn (hstop.mono hle)).of_le hle hstop

/-- An expression in its place, in parentheses or not. -/
theorem operand (h : Readable passes line e) (hn : place.nestingAt e.level e.nesting ≤ n)
    (hstop : Stops place rest) :
    Reads passes line (place.rule (Rules.atDepth passes n)) (place.wrap e.level e.render) e.Alike
      rest := by
  unfold Level.wrap
  unfold Level.nestingAt at hn
  split at hn
  · next hle =>
    rw [if_pos hle]
    exact (h.reads hn (hstop.mono hle)).of_le hle hstop
  · next hle =>
    rw [if_neg hle]
    -- The counted rule that parentheses cost is the assignment inside them.
    obtain ⟨n, rfl⟩ : ∃ m, n = m + 1 := ⟨n - 1, by omega⟩
    have hinner : Reads passes line (Level.assignment.rule (Rules.atDepth passes n)) e.render
        e.Alike (.symbol .rightParen :: rest) :=
      h.assignment (by omega) (stops_of_continues_eq_none rfl)
    exact (parenthesized_reads hinner).of_le place.rank_le_primary hstop

/-- An expression as the left operand of a level that nests to the left. -/
theorem left (h : Readable passes line e) (hplace : place.nestsLeft = true)
    (hn : place.nestingAt e.level e.nesting ≤ n) (hstop : Stops place.tighter rest) :
    Grows passes line (place.rule (Rules.atDepth passes n)) (place.step (Rules.atDepth passes n))
      (place.wrap e.level e.render) e.Alike rest := by
  by_cases hown : e.level = place
  · subst hown
    have hle := e.level.le_refl
    rw [Level.wrap, if_pos hle]
    rw [Level.nestingAt, if_pos hle] at hn
    exact h n rest hn (by rwa [Level.inner_eq_tighter hplace])
  · -- In any other case the next tighter level asks for the same parentheses.
    have hsame : place ≤ e.level ↔ place.tighter ≤ e.level :=
      ⟨fun hle => Level.tighter_le hle (Ne.symm hown), Level.le_trans place.le_tighter⟩
    have hwrap : place.wrap e.level e.render = place.tighter.wrap e.level e.render := by
      simp only [Level.wrap, hsame]
    have hnesting : place.nestingAt e.level e.nesting =
        place.tighter.nestingAt e.level e.nesting := by
      simp only [Level.nestingAt, hsame]
    rw [hwrap]
    exact (h.operand (hnesting ▸ hn) hstop).grows hplace

/-- An expression where the grammar has an assignment. -/
theorem item (h : Readable passes line e) (hn : e.nesting + 1 ≤ n)
    (hstop : Stops .assignment rest) :
    Reads passes line (Rules.atDepth passes n).assignment e.render e.Alike rest := by
  obtain ⟨n, rfl⟩ : ∃ m, n = m + 1 := ⟨n - 1, by omega⟩
  exact h.assignment (by omega) hstop

/-- The operand of an operator in front. -/
theorem unaryOperand (h : Readable passes line e)
    (hn : Level.unary.nestingAt e.level e.nesting + 1 ≤ n) (hstop : Stops .unary rest) :
    Reads passes line (Rules.atDepth passes n).unary (Level.unary.wrap e.level e.render) e.Alike
      rest := by
  obtain ⟨n, rfl⟩ : ∃ m, n = m + 1 := ⟨n - 1, by omega⟩
  exact h.operand (Nat.le_of_succ_le_succ hn) hstop

/-- The alternative of a conditional. -/
theorem alternative (h : Readable passes line e)
    (hn : Level.ternary.nestingAt e.level e.nesting + 1 ≤ n) (hstop : Stops .ternary rest) :
    Reads passes line (Rules.atDepth passes n).ternary (Level.ternary.wrap e.level e.render) e.Alike
      rest := by
  obtain ⟨n, rfl⟩ : ∃ m, n = m + 1 := ⟨n - 1, by omega⟩
  exact h.operand (Nat.le_of_succ_le_succ hn) hstop

/-- The condition in front of a question mark. -/
theorem condition (h : Readable passes line e)
    (hn : Level.or.nestingAt e.level e.nesting ≤ n) :
    Reads passes line (infixRule (Rules.atDepth passes n) infixRows)
      (Level.or.wrap e.level e.render) e.Alike (.symbol .question :: rest) := by
  have hstop : Stops .or (.symbol .question :: rest) := stops_of_continues rfl (by decide)
  exact h.operand hn hstop

/-- The target in front of an assignment. -/
theorem target {k : TokenKind} (h : Readable passes line e)
    (hn : Level.ternary.nestingAt e.level e.nesting ≤ n) (hk : k.continues = some .assignment) :
    Reads passes line (ternaryRule (Rules.atDepth passes n))
      (Level.ternary.wrap e.level e.render) e.Alike (k :: rest) := by
  have hstop : Stops .ternary (k :: rest) := stops_of_continues hk (by decide)
  exact h.operand hn hstop

/-- A form of a level that does not nest to the left. -/
theorem of_reads (hlevel : e.level.nestsLeft = false)
    (h : ∀ n rest, e.nesting ≤ n → Stops e.level rest →
      Reads passes line (e.level.rule (Rules.atDepth passes n)) e.render e.Alike rest) :
    Readable passes line e := by
  intro n rest hn hstop
  have hinner : e.level.inner = e.level := by simp [Level.inner, hlevel]
  rw [hinner] at hstop
  exact .of_reads (h n rest hn hstop) (Level.step_eq_none hlevel)

/-! ## Operands -/

section Primary

variable {p : Position}

theorem number {value : Number} : Readable passes line (.number value p) := by
  refine of_reads rfl fun n rest _ _ => .peek fun t ht => ?_
  rw [show t.kind = .number value from ht]
  exact .advance fun _ _ => .pure .number

theorem string {value : String} : Readable passes line (.string value p) := by
  refine of_reads rfl fun n rest _ _ => .peek fun t ht => ?_
  rw [show t.kind = .string value from ht]
  exact .advance fun _ _ => .pure .string

theorem bool {value : Bool} : Readable passes line (.bool value p) := by
  refine of_reads rfl fun n rest _ _ => .peek fun t ht => ?_
  rw [show t.kind = .bool value from ht]
  exact .advance fun _ _ => .pure .bool

theorem null : Readable passes line (.null p) := by
  refine of_reads rfl fun n rest _ _ => .peek fun t ht => ?_
  rw [show t.kind = .null from ht]
  exact .advance fun _ _ => .pure .null

theorem ident {name : String} : Readable passes line (.ident name p) := by
  refine of_reads rfl fun n rest _ _ => .peek fun t ht => ?_
  rw [show t.kind = .ident name from ht]
  -- Only an arrow would make the name a parameter.
  refine .advance fun _ _ => .of_no_arrow fun harrow => ?_
  exact .accept_not harrow (.pure .ident)

/-- Expressions between commas, up to a bracket or parenthesis. -/
theorem items {items : List Expr} {close : Symbol}
    (hclose : close = .rightParen ∨ close = .rightBracket)
    (h : ∀ e ∈ items, e.Renderable ∧ Readable passes line e) (hn : nestingAll items ≤ n) :
    Reads passes line (commaList close (Rules.atDepth passes n).assignment passes [])
      (commaSeparated (renderAll items)) (List.Forall₂ Expr.Alike items)
      (.symbol close :: rest) := by
  rw [renderAll_eq_map]
  refine commaList_reads ?_ ?_ ?_
  · rcases hclose with rfl | rfl <;> nofun
  · intro e he
    obtain ⟨k, ks, hrender, hparen, hbracket⟩ := (h e he).1.begins
    refine ⟨k, ks, hrender, ?_⟩
    rcases hclose with rfl | rfl
    · exact hparen
    · exact hbracket
  · intro e he sym ks hsym
    refine (h e he).2.item (Nat.le_trans (nesting_lt_nestingAll he) hn) ?_
    refine stops_of_continues_eq_none ?_
    rcases hsym with rfl | rfl
    · rfl
    · rcases hclose with rfl | rfl <;> rfl

theorem array {items : List Expr} (h : ∀ e ∈ items, e.Renderable ∧ Readable passes line e) :
    Readable passes line (.array items p) := by
  refine of_reads rfl fun n rest hn _ => .peek fun t ht => ?_
  rw [show t.kind = .symbol .leftBracket from ht]
  refine .advance fun _ _ => ?_
  rw [Rules.passes_atDepth]
  refine (Readable.items (.inr rfl) h hn).bind fun items' hitems => ?_
  exact .expect (.pure (.array hitems))

theorem entry {entry : String × Expr} (h : Readable passes line entry.2)
    (hn : entry.2.nesting + 1 ≤ n) (hstop : Stops .assignment rest) :
    Reads passes line (property (Rules.atDepth passes n))
      (.string entry.1 :: .symbol .colon :: entry.2.render) (Expr.AlikeEntry entry) rest := by
  refine .advance fun t ht => ?_
  have hkey : propertyKey? t = some entry.1 := by rw [propertyKey?, ht]
  rw [hkey]
  refine .check (.check ?_)
  rw [ht]
  exact .expect ((h.item hn hstop).bind_nil fun value hvalue => .pure ⟨rfl, hvalue⟩)

theorem entries {entries : List (String × Expr)}
    (h : ∀ entry ∈ entries, Readable passes line entry.2) (hn : nestingEntries entries ≤ n) :
    Reads passes line (commaList .rightBrace (property (Rules.atDepth passes n)) passes [])
      (commaSeparated (renderEntries entries)) (List.Forall₂ Expr.AlikeEntry entries)
      (.symbol .rightBrace :: rest) := by
  rw [renderEntries_eq_map]
  refine commaList_reads nofun (fun _ _ => ⟨_, _, rfl, nofun⟩) ?_
  intro entry hentry sym ks hsym
  refine (h entry hentry).entry (Nat.le_trans (nesting_lt_nestingEntries hentry) hn) ?_
  refine stops_of_continues_eq_none ?_
  rcases hsym with rfl | rfl <;> rfl

theorem object {entries : List (String × Expr)}
    (h : ∀ entry ∈ entries, Readable passes line entry.2) :
    Readable passes line (.object entries p) := by
  refine of_reads rfl fun n rest hn _ => .peek fun t ht => ?_
  rw [show t.kind = .symbol .leftBrace from ht]
  refine .peek fun t _ => .expect ?_
  rw [Rules.passes_atDepth]
  refine (Readable.entries h hn).bind fun entries' hentries => ?_
  exact .expect (.pure (.object_of_entries hentries))

end Primary

/-! ## Operators -/

section Operators

variable {p : Position}

theorem infixed {left right : Expr} (op : InfixOp) (hlevel : e.level = op.level)
    (hrender : e.render = op.render (left.level, left.render) (right.level, right.render))
    (hnesting : e.nesting = max (op.level.nestingAt left.level left.nesting)
      (op.level.tighter.nestingAt right.level right.nesting))
    (halike : ∀ left' right', left.Alike left' → right.Alike right' →
      e.Alike (op.apply left' right'))
    (hleft : Readable passes line left) (hright : Readable passes line right) :
    Readable passes line e := by
  intro n rest hn hstop
  rw [hlevel, Level.inner_eq_tighter op.nestsLeft_level] at hstop
  rw [hnesting] at hn
  rw [hlevel, hrender]
  -- Behind the left operand the rule is still running, and the operator is its next pass.
  refine Grows.pass (hleft.left op.nestsLeft_level (by omega) ?_) nofun ?_
  · exact stops_of_continues op.continues_symbol op.not_tighter_le_level
  · intro left' hleft'
    refine (infixStep_reads (hright.operand (by omega) hstop)).mono ?_
    rintro found ⟨right', rfl, hright'⟩
    exact ⟨_, rfl, halike left' right' hleft' hright'⟩

theorem unary {op : UnaryOp} {operand : Expr} (h : Readable passes line operand) :
    Readable passes line (.unary op operand p) := by
  refine of_reads rfl fun n rest hn hstop => .peek fun t ht => ?_
  rw [show t.kind = .symbol op.symbol from ht]
  have hoperand := h.unaryOperand hn hstop
  cases op with
  | neg => exact .advance fun _ _ => hoperand.bind_nil fun e' he' => .pure (.unary he')
  | not => exact .advance fun _ _ => hoperand.bind_nil fun e' he' => .pure (.unary he')

theorem updateBefore {op : UpdateOp} {target : Expr} (h : Readable passes line target) :
    Readable passes line (.update op true target p) := by
  refine of_reads rfl fun n rest hn hstop => .peek fun t ht => ?_
  rw [show t.kind = .symbol op.symbol from ht]
  have htarget := h.unaryOperand hn hstop
  cases op with
  | increment => exact .advance fun _ _ => htarget.bind_nil fun e' he' => .pure (.update he')
  | decrement => exact .advance fun _ _ => htarget.bind_nil fun e' he' => .pure (.update he')

theorem ternary {condition whenTrue whenFalse : Expr} (hc : Readable passes line condition)
    (ht : Readable passes line whenTrue) (hf : Readable passes line whenFalse) :
    Readable passes line (.ternary condition whenTrue whenFalse p) := by
  refine of_reads rfl fun n rest hn hstop => ?_
  rw [Expr.nesting] at hn
  refine (hc.condition (by omega)).bind fun condition' hcondition' => .accept ?_
  refine (ht.item (by omega) (stops_of_continues_eq_none rfl)).bind fun whenTrue' htrue' => ?_
  refine .expect ((hf.alternative (by omega) hstop).bind_nil fun whenFalse' hfalse' => ?_)
  exact .pure (.ternary hcondition' htrue' hfalse')

/-- The rest of an assignment, whose target is what can be assigned to. -/
theorem assignmentRest_reads {target target' value : Expr} {build : Expr → Expr} {k : TokenKind}
    (htarget : target.isAssignable = true) (halike : target.Alike target')
    (hvalue : Readable passes line value) (hn : value.nesting + 1 ≤ n)
    (hstop : Stops .assignment rest)
    (hbuild : ∀ value', value.Alike value' → e.Alike (build value')) :
    Reads passes line (assignmentRest (Rules.atDepth passes n) target' build) (k :: value.render)
      e.Alike rest := by
  refine .advance fun _ _ => ?_
  -- The parser looks at the target that it has read, not at the one that was written.
  rw [if_pos (halike.isAssignable_eq ▸ htarget)]
  exact (hvalue.item hn hstop).bind_nil fun value' hvalue' => .pure (hbuild value' hvalue')

theorem assign {target value : Expr} (htarget : target.isAssignable = true)
    (ht : Readable passes line target) (hv : Readable passes line value) :
    Readable passes line (.assign target value p) := by
  refine of_reads rfl fun n rest hn hstop => ?_
  rw [Expr.nesting] at hn
  refine (ht.target (by omega) rfl).bind fun target' htarget' => .peek fun t hkind => ?_
  rw [show t.kind = .symbol .assign from hkind, if_pos rfl]
  exact assignmentRest_reads htarget htarget' hv (by omega) hstop fun value' hvalue' =>
    .assign htarget' hvalue'

theorem compound {op : BinaryOp} {sym : Symbol} {target value : Expr}
    (hsym : op.assignSymbol? = some sym) (htarget : target.isAssignable = true)
    (ht : Readable passes line target) (hv : Readable passes line value) :
    Readable passes line (.compound op target value p) := by
  have hcontinues : (TokenKind.symbol sym).continues = some .assignment := by
    cases op <;> cases hsym <;> rfl
  have hop : compoundOp? (.symbol sym) = some op := by
    cases op <;> cases hsym <;> rfl
  have hne : TokenKind.symbol sym ≠ .symbol .assign := by
    cases op <;> cases hsym <;> nofun
  refine of_reads rfl fun n rest hn hstop => ?_
  rw [Expr.nesting] at hn
  rw [Expr.render, hsym, List.append_assoc]
  refine (ht.target (by omega) hcontinues).bind fun target' htarget' => .peek fun t hkind => ?_
  rw [show t.kind = .symbol sym from hkind, if_neg hne, hop]
  exact assignmentRest_reads htarget htarget' hv (by omega) hstop fun value' hvalue' =>
    .compound htarget' hvalue'

end Operators

/-! ## What follows an operand directly -/

section Suffixes

variable {p : Position}

/-- A form with an operand in front of it, from what one pass reads behind that operand. -/
theorem suffixed {operand : Expr} {k : TokenKind} {ks : List TokenKind}
    (hlevel : e.level = .suffixed)
    (hrender : e.render = Level.suffixed.wrap operand.level operand.render ++ k :: ks)
    (hk : k.continues = some .suffixed)
    (hnesting : Level.suffixed.nestingAt operand.level operand.nesting ≤ e.nesting)
    (h : Readable passes line operand)
    (hpass : ∀ n rest operand', e.nesting ≤ n → operand.Alike operand' →
      Reads passes line (suffix (Rules.atDepth passes n) operand') (k :: ks)
        (fun found => ∃ e', found = some e' ∧ e.Alike e') rest) :
    Readable passes line e := by
  intro n rest hn _
  rw [hlevel, hrender]
  have hstop : Stops Level.suffixed.tighter (k :: ks ++ rest) :=
    stops_of_continues hk (by decide)
  exact (h.left rfl (Nat.le_trans hnesting hn) hstop).pass nofun fun operand' hoperand' =>
    hpass n rest operand' hn hoperand'

theorem call {callee : Expr} {args : List Expr} (hcallee : Readable passes line callee)
    (hargs : ∀ e ∈ args, e.Renderable ∧ Readable passes line e) :
    Readable passes line (.call callee args p) := by
  refine suffixed rfl rfl rfl (Nat.le_max_left ..) hcallee fun n rest callee' hn hcallee' => ?_
  have hn' : nestingAll args ≤ n := Nat.le_trans (Nat.le_max_right ..) hn
  refine .peek fun t ht => ?_
  rw [show t.kind = .symbol .leftParen from ht]
  refine .advance fun _ _ => ?_
  rw [Rules.passes_atDepth]
  refine (Readable.items (.inl rfl) hargs hn').bind fun args' hargs' => ?_
  exact .expect (.pure ⟨_, rfl, .call hcallee' hargs'⟩)

theorem index {object index : Expr} (hobject : Readable passes line object)
    (hindex : Readable passes line index) : Readable passes line (.index object index p) := by
  refine suffixed rfl rfl rfl (Nat.le_max_left ..) hobject fun n rest object' hn hobject' => ?_
  have hn' : index.nesting + 1 ≤ n := Nat.le_trans (Nat.le_max_right ..) hn
  refine .peek fun t ht => ?_
  rw [show t.kind = .symbol .leftBracket from ht]
  refine .advance fun _ _ => ?_
  refine (hindex.item hn' (stops_of_continues_eq_none rfl)).bind fun index' hindex' => ?_
  exact .expect (.pure ⟨_, rfl, .index hobject' hindex'⟩)

/-- A reserved word has its own spelling, so it gives its name back. -/
theorem propertyName_reads (name : String) :
    Reads passes line propertyName [TokenKind.ofWord name] (· = name) rest := by
  rcases TokenKind.ofWord_eq_ident_or_isKeyword name with hident | hreserved
  · rw [hident]
    refine .peek fun t ht => ?_
    rw [show t.kind = .ident name from ht]
    exact .advance fun _ _ => .pure rfl
  · intro c hplain hkinds
    have hkind : c.current.kind = TokenKind.ofWord name := by rw [c.current_kind, hkinds]; rfl
    have hword : c.current.kind.isKeyword = true := hkind ▸ hreserved
    have htext : c.current.text = name :=
      TokenKind.ofWord_injective ((hplain.current_spelled hword).trans hkind)
    have hok : propertyName c = .ok c.current.text c.next := by
      simp only [propertyName, peek_bind]
      generalize c.current.kind = kind at hword
      split
      · cases hword
      · rw [if_pos hword]
        rfl
    exact ⟨_, _, hok, htext, hplain.next, by rw [c.kinds_next, hkinds]; rfl⟩

theorem member {object : Expr} {name : String} {optional : Bool}
    (hobject : Readable passes line object) :
    Readable passes line (.member object name optional p) := by
  have hcontinues : (TokenKind.symbol (memberPoint optional)).continues = some .suffixed := by
    cases optional <;> rfl
  refine suffixed rfl rfl hcontinues (Nat.le_refl _) hobject fun n rest object' hn hobject' => ?_
  refine .peek fun t ht => ?_
  rw [show t.kind = .symbol (memberPoint optional) from ht]
  cases optional with
  | true =>
    refine .advance fun _ _ => (propertyName_reads name).bind_nil ?_
    rintro _ rfl
    exact .pure ⟨_, rfl, .member hobject'⟩
  | false =>
    refine .advance fun _ _ => (propertyName_reads name).bind_nil ?_
    rintro _ rfl
    exact .pure ⟨_, rfl, .member hobject'⟩

theorem updateAfter {op : UpdateOp} {target : Expr} (htarget : Readable passes line target) :
    Readable passes line (.update op false target p) := by
  have hcontinues : (TokenKind.symbol op.symbol).continues = some .suffixed := by
    cases op <;> rfl
  refine suffixed rfl rfl hcontinues (Nat.le_refl _) htarget fun n rest target' hn htarget' => ?_
  have hline : Reads passes line
      (get >>= fun c : Cursor => if c.onPreviousLine then
        advance >>= fun _ => pure (some (.update op false target' target'.position))
        else pure none)
      [.symbol op.symbol]
      (fun found => ∃ e', found = some e' ∧ Expr.Alike (.update op false target p) e') rest := by
    refine .get fun c hplain hkinds => ?_
    rw [if_pos (hplain.onPreviousLine (by rw [hkinds]; nofun))]
    exact .advance fun _ _ => .pure ⟨_, rfl, .update htarget'⟩
  refine .peek fun t ht => ?_
  rw [show t.kind = .symbol op.symbol from ht]
  cases op with
  | increment => exact hline
  | decrement => exact hline

end Suffixes

end Readable

/-- Every expression that is rendered is read back. -/
theorem Expr.Renderable.readable {e : Expr} (h : e.Renderable) : Readable passes line e := by
  induction h with
  | number => exact .number
  | string => exact .string
  | bool => exact .bool
  | null => exact .null
  | ident => exact .ident
  | array hitems ih => exact .array fun e he => ⟨hitems e he, ih e he⟩
  | object _ ih => exact .object ih
  | @binary op _ _ _ _ _ ihl ihr =>
    exact .infixed (.binary op) rfl rfl rfl (fun _ _ hl hr => .binary hl hr) ihl ihr
  | @logical op _ _ _ _ _ ihl ihr =>
    exact .infixed (.logical op) rfl rfl rfl (fun _ _ hl hr => .logical hl hr) ihl ihr
  | unary _ ih => exact .unary ih
  | call _ hargs ih ihs => exact .call ih fun e he => ⟨hargs e he, ihs e he⟩
  | member _ ih => exact .member ih
  | index _ _ iho ihi => exact .index iho ihi
  | ternary _ _ _ ihc iht ihf => exact .ternary ihc iht ihf
  | @update _ before _ _ _ ih =>
    cases before with
    | true => exact .updateBefore ih
    | false => exact .updateAfter ih
  | assign htarget _ _ iht ihv => exact .assign htarget iht ihv
  | compound hsym htarget _ _ iht ihv => exact .compound hsym htarget iht ihv

/-! ## Declarations -/

/-- The kinds of `let name = e ;`. -/
def declarationKinds (name : String) (e : Expr) : List TokenKind :=
  (.keyword .letKw :: .ident name :: .symbol .assign :: e.render) ++ [.symbol .semicolon]

theorem identifier_reads (name : String) :
    Reads passes line identifier [.ident name] (· = name) rest := by
  refine .peek fun t ht => ?_
  rw [show t.kind = .ident name from ht]
  exact .advance fun _ _ => .pure rfl

theorem declaration_reads {e : Expr} {name : String} (he : e.Renderable) (hn : e.nesting + 1 ≤ n) :
    Reads passes line (ended (declaration (Rules.atDepth passes n))) (declarationKinds name e)
      (fun stmt => ∃ e' p, stmt = .declare name false (some e') p ∧ e.Alike e') rest := by
  have hinit : Reads passes line (Rules.atDepth passes n).assignment e.render e.Alike
      (.symbol .semicolon :: rest) :=
    he.readable.item hn (stops_of_continues_eq_none rfl)
  have hdeclare : Reads passes line (declaration (Rules.atDepth passes n))
      (.keyword .letKw :: .ident name :: .symbol .assign :: e.render)
      (fun stmt => ∃ e' p, stmt = .declare name false (some e') p ∧ e.Alike e')
      (.symbol .semicolon :: rest) := by
    refine .advance fun t ht => ?_
    rw [ht]
    refine Reads.bind (identifier_reads name) ?_
    rintro _ rfl
    exact .accept (hinit.bind_nil fun e' he' => .pure ⟨e', _, rfl, he'⟩)
  exact hdeclare.bind fun stmt hstmt => .accept (.pure hstmt)

theorem declarationKinds_noArrow {e : Expr} (name : String) (he : e.Renderable) :
    NoArrow (declarationKinds name e) := by
  have hhead : NoArrow (.keyword .letKw :: .ident name :: .symbol .assign :: e.render) :=
    .cons nofun (.cons nofun (.cons nofun he.noArrow))
  exact hhead.append (.cons nofun .nil)

/-- A declaration passes its first token unseen, so the line before that does not matter. -/
theorem stmtRule_of_let {r : Rules} {t : Token} {ts : List Token} {finish : Position}
    (ht : t.kind = .keyword .letKw) (previous previous' : Option Nat) :
    stmtRule r ⟨previous, t :: ts, finish⟩ =
      ended (declaration r) ⟨previous', t :: ts, finish⟩ := by
  simp only [stmtRule, peek_bind, Cursor.current, List.headD_cons, ht]
  rfl

/-- A program that is one statement. -/
theorem statements_of_single {r : Rules} {c c' : Cursor} {stmt : Stmt} (hend : c.atEnd = false)
    (hkind : c.current.kind ≠ .symbol .semicolon) (hstmt : r.stmt c = .ok stmt c')
    (hrest : c'.atEnd = true) (passes : Nat) : statements r (passes + 1) c = ⟨[stmt], []⟩ := by
  have hmore : statements r passes c' = ⟨[], []⟩ := by
    cases passes with
    | zero => rfl
    | succ passes => rw [statements, if_pos hrest]
  rw [statements, if_neg (by simp [hend]), if_neg hkind, hstmt]
  simp only [hmore]

/-! ## Programs -/

/-- The tokens in front of the end of input are of the given kinds, on one line, with their own
spelling. -/
structure WrittenAs (tokens : List Token) (kinds : List TokenKind) : Prop where
  kinds_eq : (tokens.takeWhile (·.kind != .eof)).map (·.kind) = kinds
  oneLine : ∃ line, ∀ t ∈ tokens.takeWhile (·.kind != .eof), t.line = line
  spelled : ∀ t ∈ tokens.takeWhile (·.kind != .eof), t.Spelled

theorem Lexeme.eq_ofWord {text : List Char} {kind : TokenKind} (h : ofSlice text = .token kind)
    (hword : kind.isKeyword = true) : TokenKind.ofWord (String.ofList text) = kind := by
  unfold ofSlice at h
  split at h
  · cases h
  · repeat' split at h
    all_goals cases h
    all_goals first | rfl | cases hword

/-- The tokens of a source have their own spelling. -/
theorem tokenize_spelled (source : String) : ∀ t ∈ (tokenize source).tokens, t.Spelled := by
  intro t ht hword
  rcases List.mem_append.mp ht with hpiece | hend
  · obtain ⟨piece, -, htoken⟩ := List.mem_filterMap.mp hpiece
    unfold Piece.token? at htoken
    split at htoken
    · next kind _ hlexeme =>
      cases htoken
      exact Lexeme.eq_ofWord hlexeme hword
    · cases htoken
      cases hword
    · cases htoken
  · rw [List.mem_singleton.mp hend] at hword
    cases hword

theorem WrittenAs.plain {tokens : List Token} {kinds : List TokenKind} (h : WrittenAs tokens kinds)
    (harrow : NoArrow kinds) :
    ∃ line, Cursor.Plain (Cursor.ofTokens tokens).rest.length line
      { Cursor.ofTokens tokens with previousLine := some line } := by
  obtain ⟨line, hline⟩ := h.oneLine
  refine ⟨line, rfl, hline, h.spelled, ?_, Nat.le_refl _⟩
  intro t ht hkind
  refine harrow ?_
  rw [← h.kinds_eq, ← hkind]
  exact List.mem_map_of_mem ht

/-- Parsing gives a rendered expression back, if it does not nest too deeply: two counted rules are
open around it, the statement and the initializer. -/
theorem parse_render {tokens : List Token} {name : String} {e : Expr} (he : e.Renderable)
    (hnesting : e.nesting + 2 ≤ maxNesting)
    (hwritten : WrittenAs tokens (declarationKinds name e)) :
    ∃ e' p, parse tokens = ⟨[.declare name false (some e') p], []⟩ ∧ e.Alike e' := by
  obtain ⟨line, hplain⟩ := hwritten.plain (declarationKinds_noArrow name he)
  obtain ⟨t, ts, hrest, ht, -⟩ := List.map_eq_cons_iff.mp hwritten.kinds_eq
  obtain ⟨finish, hcursor⟩ : ∃ finish, Cursor.ofTokens tokens = ⟨none, t :: ts, finish⟩ :=
    ⟨_, by rw [← hrest]; rfl⟩
  rw [hcursor] at hplain
  have hkinds : Cursor.kinds ⟨some line, t :: ts, finish⟩ = declarationKinds name e ++ [] := by
    rw [List.append_nil, ← hwritten.kinds_eq, hrest]
    rfl
  have hn : e.nesting + 1 ≤ maxNesting - 1 := by omega
  obtain ⟨_, c', hok, ⟨e', p, rfl, halike⟩, -, hkinds'⟩ :=
    declaration_reads he hn _ hplain hkinds
  refine ⟨e', p, ?_, halike⟩
  have hend : c'.atEnd = true := by
    rw [Cursor.atEnd, ← List.isEmpty_map]
    exact List.isEmpty_iff.mpr hkinds'
  rw [parse, hcursor]
  refine statements_of_single rfl ?_ ((stmtRule_of_let ht _ _).trans hok) hend ts.length
  simp [Cursor.current, ht]

/-- The expression `(a + b) * -c++ - (d = e ? f : g.if)`. -/
def groupedExpr : Expr :=
  let name (s : String) : Expr := .ident s .start
  .binary .sub
    (.binary .mul (.binary .add (name "a") (name "b") .start)
      (.unary .neg (.update .increment false (name "c") .start) .start) .start)
    (.assign (name "d")
      (.ternary (name "e") (name "f") (.member (name "g") "if" false .start) .start) .start)
    .start

/-- The tokens of `let v = (a + b) * -c++ - (d = e ? f : g.if);`. -/
def groupedTokens : List Token :=
  [.keyword .letKw, .ident "v", .symbol .assign, .symbol .leftParen, .ident "a", .symbol .plus,
    .ident "b", .symbol .rightParen, .symbol .star, .symbol .minus, .ident "c", .symbol .plusPlus,
    .symbol .minus, .symbol .leftParen, .ident "d", .symbol .assign, .ident "e", .symbol .question,
    .ident "f", .symbol .colon, .ident "g", .symbol .dot, .keyword .ifKw, .symbol .rightParen,
    .symbol .semicolon, .eof].map fun kind => ⟨kind, kind.word?.getD "", .start⟩

theorem groupedExpr_renderable : groupedExpr.Renderable :=
  .binary (.binary (.binary .ident .ident) (.unary (.update .ident)))
    (.assign rfl .ident (.ternary .ident .ident (.member .ident)))

theorem groupedTokens_written : WrittenAs groupedTokens (declarationKinds "v" groupedExpr) where
  kinds_eq := by decide
  oneLine := ⟨1, by decide⟩
  spelled := by decide

theorem parse_render_grouped :
    (groupedExpr.Renderable ∧ groupedExpr.nesting + 2 ≤ maxNesting ∧
      WrittenAs groupedTokens (declarationKinds "v" groupedExpr)) ∧
    ∃ e' p, parse groupedTokens = ⟨[.declare "v" false (some e') p], []⟩ ∧ groupedExpr.Alike e' :=
  ⟨⟨groupedExpr_renderable, by decide, groupedTokens_written⟩,
    parse_render groupedExpr_renderable (by decide) groupedTokens_written⟩

end Quill
