import Quill.Proofs.Syntax.Reading

/-!
# Through the levels

Every level of the table is one rule of the parser (`Level.rule`), and a rule begins with the rule
of the next tighter level. So an operand that holds together more tightly than its place asks for is
read by running down the rules to its own and coming back up, and on the way back every rule has to
see that it is not its turn. `Stops` says which tokens tell it so: a token goes on with an
expression at one level only (`TokenKind.continues`).

The levels that nest to the left are repetitions, and `Level.step` is what one pass does.
-/

set_option autoImplicit false

namespace Quill.TokenKind

open Syntax

/-- The level at which a token goes on with an expression in front of it. -/
def continues : TokenKind → Option Level
  | .symbol .assign | .symbol .plusAssign | .symbol .minusAssign | .symbol .starAssign
  | .symbol .slashAssign => some .assignment
  | .symbol .question => some .ternary
  | .symbol .orOr => some .or
  | .symbol .andAnd => some .and
  | .symbol .equal | .symbol .notEqual => some .equality
  | .symbol .less | .symbol .lessEqual | .symbol .greater | .symbol .greaterEqual =>
    some .relational
  | .symbol .plus | .symbol .minus => some .additive
  | .symbol .star | .symbol .slash | .symbol .percent => some .multiplicative
  | .symbol .leftParen | .symbol .dot | .symbol .questionDot | .symbol .leftBracket
  | .symbol .plusPlus | .symbol .minusMinus => some .suffixed
  | _ => none

end Quill.TokenKind

namespace Quill.Syntax

variable {α : Type} {passes line n : Nat} {r : Rules} {ks rest : List TokenKind}
  {R : Expr → Prop} {level : Level}

/-! ## The order of levels -/

namespace Level

theorem le_refl (level : Level) : level ≤ level := Nat.le_refl level.rank

theorem le_trans {a b c : Level} (hab : a ≤ b) (hbc : b ≤ c) : a ≤ c :=
  Nat.le_trans (show a.rank ≤ b.rank from hab) hbc

theorem le_tighter (level : Level) : level ≤ level.tighter := by
  cases level <;> decide

theorem rank_tighter (h : level ≠ .primary) : level.tighter.rank = level.rank + 1 := by
  cases level with
  | primary => exact absurd rfl h
  | _ => rfl

theorem eq_of_rank_eq {a b : Level} (h : a.rank = b.rank) : a = b := by
  cases a <;> cases b <;> first | rfl | cases h

theorem rank_le_primary (level : Level) : level.rank ≤ Level.primary.rank := by
  cases level <;> decide

theorem tighter_le {a b : Level} (hle : a ≤ b) (hne : a ≠ b) : a.tighter ≤ b := by
  have hrank : a.rank ≤ b.rank := hle
  have hne' : a.rank ≠ b.rank := fun h => hne (eq_of_rank_eq h)
  have hprimary : a ≠ .primary := by
    rintro rfl
    have := b.rank_le_primary
    omega
  show a.tighter.rank ≤ b.rank
  rw [rank_tighter hprimary]
  omega

/-- The levels whose forms nest to the left. -/
def nestsLeft : Level → Bool
  | or | and | equality | relational | additive | multiplicative | suffixed => true
  | _ => false

/-- The rule of a level. -/
def rule (r : Rules) : Level → Parse Expr
  | assignment => assignmentRule r
  | ternary => ternaryRule r
  | unary => unaryRule r
  | suffixed => Syntax.suffixed r
  | primary => Syntax.primary r
  | level => infixRule r (infixRows.drop (level.rank - or.rank))

/-- The row of operators of a level. -/
def row (level : Level) : List (Symbol × InfixOp) :=
  (infixRows.drop (level.rank - or.rank)).headD []

/-- What a level does with what it has read so far. -/
def step (r : Rules) : Level → Expr → Parse (Option Expr)
  | assignment | ternary | unary | primary => fun _ => pure none
  | suffixed => suffix r
  | level => infixStep level.row (level.tighter.rule r)

/-- A level that nests to the left repeats its step. -/
theorem rule_eq_extend (h : level.nestsLeft = true) :
    level.rule r = level.tighter.rule r >>= extend (level.step r) r.passes := by
  cases level with
  | assignment | ternary | unary | primary => cases h
  | _ => rfl

theorem step_eq_none (h : level.nestsLeft = false) (e : Expr) : level.step r e = pure none := by
  cases level with
  | assignment | ternary | unary | primary => rfl
  | _ => cases h

end Level

@[simp]
theorem Rules.passes_atDepth (passes n : Nat) : (Rules.atDepth passes n).passes = passes := by
  cases n <;> rfl

/-! ## Where a level stops -/

/-- What follows does not go on with an expression of the level or a tighter one. -/
def Stops (level : Level) (rest : List TokenKind) : Prop :=
  ∀ other, (rest.headD .eof).continues = some other → ¬ level ≤ other

theorem Stops.mono {tighter : Level} (h : Stops level rest) (hle : level ≤ tighter) :
    Stops tighter rest :=
  fun other hother htighter => h other hother (Level.le_trans hle htighter)

/-- A token that never goes on with an expression stops every level. -/
theorem stops_of_continues_eq_none {k : TokenKind} (h : k.continues = none) :
    Stops level (k :: rest) := by
  intro other hother
  rw [List.headD_cons, h] at hother
  cases hother

/-- Behind a token of its own level, all that is tighter stops. -/
theorem stops_of_continues {k : TokenKind} {own : Level} (h : k.continues = some own)
    (hle : ¬ level ≤ own) : Stops level (k :: rest) := by
  intro other hother
  rw [List.headD_cons, h] at hother
  cases hother
  exact hle

theorem Stops.kind_ne {k : TokenKind} (h : Stops level rest) (hk : k.continues = some level) :
    rest.headD .eof ≠ k := by
  intro heq
  exact h level (by rw [heq, hk]) level.le_refl

theorem continues_of_infixOp? {k : TokenKind} {op : InfixOp}
    (hlevel : level.nestsLeft = true) (hsuffixed : level ≠ .suffixed)
    (h : infixOp? level.row k = some op) : k.continues = some level := by
  obtain ⟨sym, rfl, hmem⟩ := mem_of_infixOp? h
  have hrow : ∀ entry ∈ level.row, (TokenKind.symbol entry.1).continues = some level := by
    cases level with
    | assignment | ternary | unary | primary => cases hlevel
    | suffixed => exact absurd rfl hsuffixed
    | _ => decide
  exact hrow (sym, op) hmem

theorem infixStep_stops {row : List (Symbol × InfixOp)} {operand : Parse Expr} {e : Expr}
    (h : infixOp? row (rest.headD .eof) = none) :
    Reads passes line (infixStep row operand e) [] (· = none) rest := by
  refine .peek fun t ht => ?_
  rw [ht, List.nil_append, h]
  exact .pure rfl

theorem suffix_stops {e : Expr} (hstop : Stops .suffixed rest) :
    Reads passes line (suffix r e) [] (· = none) rest := by
  refine .peek fun t ht => ?_
  have hne : ∀ {k : TokenKind}, k.continues = some .suffixed → t.kind ≠ k := by
    intro k hk
    rw [ht]
    exact hstop.kind_ne hk
  generalize t.kind = kind at hne
  split
  · exact absurd rfl (hne rfl)
  · exact absurd rfl (hne rfl)
  · exact absurd rfl (hne rfl)
  · exact absurd rfl (hne rfl)
  · have hop : updateOp? kind = none := by
      unfold updateOp?
      split
      · exact absurd rfl (hne rfl)
      · exact absurd rfl (hne rfl)
      · rfl
    rw [hop]
    exact .pure rfl

/-- A level finds nothing more in front of a token that stops it. -/
theorem step_stops (hstop : Stops level rest) (e : Expr) :
    Reads passes line (level.step r e) [] (· = none) rest := by
  have hop : level.nestsLeft = true → level ≠ .suffixed →
      infixOp? level.row (rest.headD .eof) = none := by
    intro hlevel hsuffixed
    cases hop : infixOp? level.row (rest.headD .eof) with
    | none => rfl
    | some op => exact absurd rfl (hstop.kind_ne (continues_of_infixOp? hlevel hsuffixed hop))
  cases level with
  | assignment | ternary | unary | primary => exact .pure rfl
  | suffixed => exact suffix_stops hstop
  | _ => exact infixStep_stops (hop rfl nofun)

/-! ## Operators between operands -/

namespace InfixOp

theorem continues_symbol (op : InfixOp) :
    (TokenKind.symbol op.symbol).continues = some op.level := by
  rcases op with op | op <;> cases op <;> rfl

theorem nestsLeft_level (op : InfixOp) : op.level.nestsLeft = true := by
  rcases op with op | op <;> cases op <;> rfl

theorem not_tighter_le_level (op : InfixOp) : ¬ op.level.tighter ≤ op.level := by
  rcases op with op | op <;> cases op <;> decide

end InfixOp

/-- One pass of a level reads an operator and its right operand. -/
theorem infixStep_reads {op : InfixOp} {left : Expr}
    (h : Reads passes line (op.level.tighter.rule r) ks R rest) :
    Reads passes line (op.level.step r left) (.symbol op.symbol :: ks)
      (fun found => ∃ right, found = some (op.apply left right) ∧ R right) rest := by
  have hstep : op.level.step r left =
      infixStep op.level.row (op.level.tighter.rule r) left := by
    rcases op with op | op <;> cases op <;> rfl
  have hop : infixOp? op.level.row (.symbol op.symbol) = some op := by
    rcases op with op | op <;> cases op <;> rfl
  rw [hstep]
  refine .peek fun t ht => ?_
  rw [show t.kind = .symbol op.symbol from ht, hop]
  exact .advance fun _ _ => h.bind_nil fun right hright => .pure ⟨right, rfl, hright⟩

/-! ## One level up -/

theorem assignmentRule_reads (h : Reads passes line (ternaryRule r) ks R rest)
    (hstop : Stops .assignment rest) : Reads passes line (assignmentRule r) ks R rest := by
  refine h.bind_nil fun e he => .peek fun t ht => ?_
  have hne : ∀ {k : TokenKind}, k.continues = some .assignment → t.kind ≠ k := by
    intro k hk
    rw [ht]
    exact hstop.kind_ne hk
  have hop : compoundOp? t.kind = none := by
    generalize t.kind = kind at hne
    unfold compoundOp?
    split
    · exact absurd rfl (hne rfl)
    · exact absurd rfl (hne rfl)
    · exact absurd rfl (hne rfl)
    · exact absurd rfl (hne rfl)
    · rfl
  rw [if_neg (hne rfl), hop]
  exact .pure he

theorem ternaryRule_reads (h : Reads passes line (infixRule r infixRows) ks R rest)
    (hstop : Stops .ternary rest) : Reads passes line (ternaryRule r) ks R rest := by
  refine h.bind_nil fun e he => ?_
  exact .accept_not (hstop.kind_ne rfl) (.pure he)

/-- An operand that reads on its own begins with no operator in front. -/
theorem unaryRule_eq_of_suffixed {c c' : Cursor} {e : Expr} (h : suffixed r c = .ok e c') :
    unaryRule r c = .ok e c' := by
  -- An operator in front would have made the operand fail at its first token.
  obtain ⟨operand, c₁, hprimary, -⟩ := of_bind_eq_ok h
  simp only [primary, peek_bind] at hprimary
  simp only [unaryRule, peek_bind]
  generalize c.current.kind = kind at hprimary ⊢
  split at hprimary <;> first | exact h | cases hprimary

theorem unaryRule_reads (h : Reads passes line (suffixed r) ks R rest) :
    Reads passes line (unaryRule r) ks R rest := by
  intro c hplain hkinds
  obtain ⟨e, c', hok, he, hplain', hkinds'⟩ := h c hplain hkinds
  exact ⟨e, c', unaryRule_eq_of_suffixed hok, he, hplain', hkinds'⟩

/-- A level that nests to the left starts with what the next tighter level reads. -/
theorem Reads.grows (hlevel : level.nestsLeft = true)
    (h : Reads passes line (level.tighter.rule (Rules.atDepth passes n)) ks R rest) :
    Grows passes line (level.rule (Rules.atDepth passes n)) (level.step (Rules.atDepth passes n))
      ks R rest := by
  rw [Level.rule_eq_extend hlevel, Rules.passes_atDepth]
  exact .start h

/-- What a level reads, the next looser one reads in front of what stops it. -/
theorem Reads.loosen (h : Reads passes line (level.tighter.rule (Rules.atDepth passes n)) ks R rest)
    (hstop : Stops level rest) :
    Reads passes line (level.rule (Rules.atDepth passes n)) ks R rest := by
  cases hlevel : level.nestsLeft with
  | true => exact (h.grows hlevel).reads (step_stops hstop)
  | false =>
    cases level with
    | assignment => exact assignmentRule_reads h hstop
    | ternary => exact ternaryRule_reads h hstop
    | unary => exact unaryRule_reads h
    | primary => exact h
    | _ => cases hlevel

/-- What a level reads, every looser one reads. -/
theorem Reads.of_le {tight : Level} (hle : level ≤ tight)
    (h : Reads passes line (tight.rule (Rules.atDepth passes n)) ks R rest)
    (hstop : Stops level rest) :
    Reads passes line (level.rule (Rules.atDepth passes n)) ks R rest := by
  -- By induction on the levels in between, from the tight one up.
  induction hdistance : tight.rank - level.rank generalizing level with
  | zero =>
    have hrank : level.rank ≤ tight.rank := hle
    rw [Level.eq_of_rank_eq (show level.rank = tight.rank by omega)]
    exact h
  | succ distance ih =>
    have hne : level ≠ tight := by
      rintro rfl
      omega
    have hnext := Level.tighter_le hle hne
    have hprimary : level ≠ .primary := by
      rintro rfl
      have := tight.rank_le_primary
      omega
    have hrank := Level.rank_tighter hprimary
    exact Reads.loosen (ih hnext (hstop.mono level.le_tighter) (by omega)) hstop

/-! ## Parentheses -/

/-- In parentheses an expression of any level is read, one counted rule deeper. -/
theorem parenthesized_reads
    (h : Reads passes line (Level.assignment.rule (Rules.atDepth passes n)) ks R
      (.symbol .rightParen :: rest)) :
    Reads passes line (Level.primary.rule (Rules.atDepth passes (n + 1)))
      (.symbol .leftParen :: (ks ++ [.symbol .rightParen])) R rest := by
  refine .peek fun t ht => ?_
  rw [show t.kind = .symbol .leftParen from ht]
  refine .get fun c hplain _ => ?_
  rw [Cursor.Plain.arrowAhead_eq_false hplain.noArrow]
  exact .advance fun _ _ => .bind h fun e he => .expect (.pure he)

end Quill.Syntax
