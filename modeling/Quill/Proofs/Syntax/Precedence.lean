import Quill.Syntax.Grammar

/-!
# The table of operators

The levels of the language, those that bind least first, and the operators of each level with their
spellings. The table is what the language promises; the parser has its own rows of operators and its
own order of rules, and nothing here is taken from them. Printing reads the table in one direction
and derivations in the other.
-/

set_option autoImplicit false

namespace Quill.Syntax

/-- How tightly an expression holds together. -/
inductive Level
  | assignment | ternary | or | and | equality | relational | additive | multiplicative
  | unary | suffixed | primary
deriving DecidableEq, Repr

namespace Level

/-- The next tighter level. Nothing is tighter than a primary expression. -/
def tighter : Level → Level
  | assignment => ternary
  | ternary => or
  | or => and
  | and => equality
  | equality => relational
  | relational => additive
  | additive => multiplicative
  | multiplicative => unary
  | unary => suffixed
  | suffixed => primary
  | primary => primary

/-- The place of a level in the table. -/
def rank : Level → Nat
  | assignment => 0
  | ternary => 1
  | or => 2
  | and => 3
  | equality => 4
  | relational => 5
  | additive => 6
  | multiplicative => 7
  | unary => 8
  | suffixed => 9
  | primary => 10

instance : LE Level := ⟨fun a b => a.rank ≤ b.rank⟩

instance (a b : Level) : Decidable (a ≤ b) := inferInstanceAs (Decidable (a.rank ≤ b.rank))

end Level

/-- The level of an operator between operands. -/
def InfixOp.level : InfixOp → Level
  | .logical .or => .or
  | .logical .and => .and
  | .binary .eq | .binary .notEq => .equality
  | .binary .lt | .binary .ltEq | .binary .gt | .binary .gtEq => .relational
  | .binary .add | .binary .sub => .additive
  | .binary .mul | .binary .div | .binary .mod => .multiplicative

/-- The spelling of an operator between operands. -/
def InfixOp.symbol : InfixOp → Symbol
  | .logical .or => .orOr
  | .logical .and => .andAnd
  | .binary .eq => .equal
  | .binary .notEq => .notEqual
  | .binary .lt => .less
  | .binary .ltEq => .lessEqual
  | .binary .gt => .greater
  | .binary .gtEq => .greaterEqual
  | .binary .add => .plus
  | .binary .sub => .minus
  | .binary .mul => .star
  | .binary .div => .slash
  | .binary .mod => .percent

end Quill.Syntax

namespace Quill

open Syntax

/-- The spelling of an operator in front of its operand. -/
def UnaryOp.symbol : UnaryOp → Symbol
  | .neg => .minus
  | .not => .bang

/-- The spelling of an operator that changes its operand. -/
def UpdateOp.symbol : UpdateOp → Symbol
  | .increment => .plusPlus
  | .decrement => .minusMinus

/-- The spelling of an assignment that also computes, for the operators that have one. -/
def BinaryOp.assignSymbol? : BinaryOp → Option Symbol
  | .add => some .plusAssign
  | .sub => some .minusAssign
  | .mul => some .starAssign
  | .div => some .slashAssign
  | _ => none

end Quill
