/-!
# Numbers

A script number is a double. It is kept as its sixty-four bits, so two numbers are equal terms
exactly when they are the same double, and every question that has an exact answer (is it whole,
which integer does it truncate to, which of two is larger, what is left after division) is answered
in `Nat` and `Int` arithmetic on the bits.

Two views carry the theory. The *code* is the pattern without its sign: finite doubles have the
codes below `infinityCode`, in the order of their magnitudes. The *units* of a finite double are its
magnitude counted in steps of `2 ^ -1074`, the smallest positive double; every finite double is a
whole number of them. `nearestCode` goes back: it is the code of the double nearest to a fraction,
a tie going to the even neighbour.
-/

set_option autoImplicit false

namespace Quill

/-- A double, given by its bits: sign, eleven bits of exponent, fifty-two of fraction. -/
structure Number where
  bits : UInt64
deriving DecidableEq, Repr, Inhabited

namespace Number

/-! ## The two views -/

/-- The place of the sign, above all other bits. -/
def signBit : Nat := Nat.pow 2 63

/-- The place of the leading bit of a full significand, which the pattern leaves out; codes that
share an exponent lie within one such step. -/
def hiddenBit : Nat := Nat.pow 2 52

/-- The code of the infinities, one above the largest finite magnitude. Larger codes are NaNs. -/
def infinityCode : Nat := 2047 * hiddenBit

/-- How many units make one. -/
def unitsPerOne : Nat := Nat.pow 2 1074

/-- The sign bit is set. Negative zero counts as negative. -/
def isNegative (n : Number) : Bool := signBit ≤ n.bits.toNat

/-- The bits without the sign. -/
def code (n : Number) : Nat := n.bits.toNat % signBit

/-- The number with a given sign and code. -/
def ofCode (negative : Bool) (code : Nat) : Number :=
  ⟨UInt64.ofNat (if negative then signBit + code else code)⟩

/-- Not a number. -/
def isNaN (n : Number) : Bool := infinityCode < n.code

def isInfinite (n : Number) : Bool := n.code == infinityCode

def isFinite (n : Number) : Bool := n.code < infinityCode

/-- Both zeros. -/
def isZero (n : Number) : Bool := n.code == 0

/-- The integer that the leading bits spell; the hidden bit is set from `hiddenBit` on. -/
def significand (n : Number) : Nat :=
  if n.code < hiddenBit then n.code else hiddenBit + n.code % hiddenBit

/-- The power of two that scales the significand, counted from the unit. -/
def scale (n : Number) : Nat := n.code / hiddenBit - 1

/-- The magnitude in units. -/
def units (n : Number) : Nat := n.significand * Nat.pow 2 n.scale

/-! ## Rounding a fraction -/

/-- The integer nearest to `a / b`, a tie going to the even one. -/
def roundDiv (a b : Nat) : Nat :=
  let q := a / b
  let r := a % b
  if 2 * r < b then q else if b < 2 * r then q + 1 else q + q % 2

/-- The code of the double nearest to `num / den`. In units the fraction has some number of binary
digits; all beyond fifty-three are rounded away, and the digits kept and their scale add up to the
code, a carry included. What is too large is infinite. -/
def nearestCode (num den : Nat) : Nat :=
  let scaled := num * unitsPerOne
  let shift := (scaled / den).log2 - 52
  min infinityCode (shift * hiddenBit + roundDiv scaled (den * Nat.pow 2 shift))

/-- The double nearest to a natural number. -/
def ofNat (n : Nat) : Number := ofCode false (nearestCode n 1)

/-- The double nearest to an integer. -/
def ofInt (i : Int) : Number := ofCode (i < 0) (nearestCode i.natAbs 1)

def zero : Number := ofCode false 0

def one : Number := ofNat 1

/-- The quiet NaN. -/
def nan : Number := ofCode false (infinityCode + Nat.pow 2 51)

/-! ## Whole numbers -/

/-- Finite and without a fraction. -/
def isWhole (n : Number) : Bool := n.isFinite && n.units % unitsPerOne == 0

/-- The magnitude without its fraction. -/
def wholePart (n : Number) : Nat := n.units / unitsPerOne

/-- Truncation toward zero, held inside `lo` and `hi`; NaN gives `0`. -/
def truncateWithin (lo hi : Int) (n : Number) : Int :=
  if n.isNaN then 0
  else max lo (min hi (if n.isNegative then -(n.wholePart : Int) else n.wholePart))

/-- Truncation into sixty-four bits, the reading of every index and count. -/
def toIndex (n : Number) : Int :=
  n.truncateWithin Int64.minValue.toInt Int64.maxValue.toInt

/-- Truncation into thirty-two bits. -/
def toInt32 (n : Number) : Int :=
  n.truncateWithin Int32.minValue.toInt Int32.maxValue.toInt

/-! ## Order and identity -/

/-- The place of a number other than NaN in the order of the reals; both zeros have place `0`. -/
def place (n : Number) : Int := if n.isNegative then -(n.code : Int) else n.code

/-- Numeric order made total: NaN lies above every other number and level with itself. -/
protected def compare (a b : Number) : Ordering :=
  match a.isNaN, b.isNaN with
  | true, true => .eq
  | true, false => .gt
  | false, true => .lt
  | false, false => Ord.compare a.place b.place

/-- The same double, all NaNs being one. Zero and negative zero differ. -/
def same (a b : Number) : Bool := a == b || (a.isNaN && b.isNaN)

/-! ## Arithmetic -/

/-- The number as the processor knows it. -/
def toFloat (n : Number) : Float := Float.ofBits n.bits

/-- The number that the processor computed. -/
def ofFloat (x : Float) : Number := ⟨x.toBits⟩

/-- The sum, rounded to the nearest double. -/
protected def add (a b : Number) : Number := ofFloat (a.toFloat + b.toFloat)

/-- The difference, rounded to the nearest double. -/
protected def sub (a b : Number) : Number := ofFloat (a.toFloat - b.toFloat)

/-- The product, rounded to the nearest double. -/
protected def mul (a b : Number) : Number := ofFloat (a.toFloat * b.toFloat)

/-- The quotient, rounded to the nearest double. -/
protected def div (a b : Number) : Number := ofFloat (a.toFloat / b.toFloat)

/-- The sign turned over, of zeros and infinities too. -/
protected def neg (n : Number) : Number := ofCode (!n.isNegative) n.code

/-- What is left of `a` after taking away `b` as often as it fits, with the sign of `a`. It is exact:
both magnitudes are whole numbers of units, and so is their remainder. -/
protected def rem (a b : Number) : Number :=
  if a.isNaN || b.isNaN || a.isInfinite || b.isZero then nan
  else if b.isInfinite then a
  else ofCode a.isNegative (nearestCode (a.units % b.units) unitsPerOne)

instance : Add Number := ⟨Number.add⟩
instance : Sub Number := ⟨Number.sub⟩
instance : Mul Number := ⟨Number.mul⟩
instance : Div Number := ⟨Number.div⟩
instance : Mod Number := ⟨Number.rem⟩
instance : Neg Number := ⟨Number.neg⟩

end Number

end Quill
