import Quill.Number.Basic

/-!
# Decimals

A decimal is an integer and a power of ten. Reading one means finding the nearest double, and
writing a double means finding the decimal with the fewest digits that reads back as it. The search
walks the decimal grids from coarse to fine; on each grid only the two neighbours of the value can
be the nearest that reads back, so only these are tried, the nearer one first and the upper one on
a tie. A double also has an exact decimal expansion, which is what is left if no grid serves.
-/

set_option autoImplicit false

namespace Quill

/-- `digits * 10 ^ exponent`. -/
structure Decimal where
  digits : Nat
  exponent : Int
deriving DecidableEq, Repr, Inhabited

namespace Decimal

/-- The code of the double nearest to a decimal. Exponents beyond the range of doubles are decided
before any power of ten is formed: `10 ^ 310` is past every finite double, and a decimal with `k`
binary digits is less than half a unit when three times its negative exponent passes `k + 1075`. -/
def code (d : Decimal) : Nat :=
  match d.exponent with
  | .ofNat e =>
    if d.digits = 0 then 0
    else if 310 ≤ e then Number.infinityCode
    else Number.nearestCode (d.digits * Nat.pow 10 e) 1
  | .negSucc e =>
    if d.digits.log2 + 1 + 1075 < 3 * (e + 1) then 0
    else Number.nearestCode d.digits (Nat.pow 10 (e + 1))

/-- The double nearest to a decimal with a sign. -/
def toNumber (negative : Bool) (d : Decimal) : Number := Number.ofCode negative d.code

end Decimal

namespace Number

/-- The magnitude of a finite number as a fraction of grid steps `10 ^ e`. -/
def onGrid (n : Number) (e : Int) : Nat × Nat :=
  match e with
  | .ofNat e => (n.units, unitsPerOne * Nat.pow 10 e)
  | .negSucc e => (n.units * Nat.pow 10 (e + 1), unitsPerOne)

/-- The neighbours of the magnitude on the grid `10 ^ e`, nearest first, the upper one on a tie. -/
def neighbours (n : Number) (e : Int) : List Decimal :=
  let (a, b) := n.onGrid e
  let below : Decimal := ⟨a / b, e⟩
  let above : Decimal := ⟨a / b + 1, e⟩
  if a % b = 0 then [below]
  else if 2 * (a % b) < b then [below, above]
  else [above, below]

/-- A power of ten at least as large as the magnitude, from the count of binary digits:
`1233 / 4096` is just under the decimal logarithm of two. -/
def topExponent (n : Number) : Int :=
  ((n.units.log2 : Int) - 1074) * 1233 / 4096 + 2

/-- The exact expansion: a unit is `5 ^ 1074` parts of `10 ^ -1074`. -/
def exactDecimal (n : Number) : Decimal := ⟨n.units * Nat.pow 5 1074, -1074⟩

/-- The decimal with the fewest digits that reads back as the magnitude of a finite number, and of
these the nearest. Twenty grids reach from above the leading digit to the seventeenth digit. -/
def shortest (n : Number) : Decimal :=
  let candidates := (List.range 20).flatMap fun i : Nat => n.neighbours (n.topExponent - i)
  (candidates.find? fun d => d.code == n.code).getD n.exactDecimal

end Number

end Quill
