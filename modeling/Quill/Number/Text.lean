import Quill.Number.Decimal

/-!
# Number text

Three layouts of the shortest decimal. `Number.text` is what a script sees: whole numbers that fit
sixty-four bits as integers, magnitudes from `0.001` to below ten million with a decimal point, all
others with an exponent. `Number.plainText` never uses an exponent. `Number.debugText` marks every
number as a fraction and changes to an exponent below `0.0001` and from `1e16` on.
-/

set_option autoImplicit false

namespace Quill

namespace Decimal

/-- The digits, without leading zeros. -/
def digitChars (d : Decimal) : List Char := Nat.toDigits 10 d.digits

/-- Where the decimal point stands, counted from before the first digit. -/
def point (d : Decimal) : Int := d.digitChars.length + d.exponent

/-- The digits with a decimal point in place, and zeros up to it where there are no digits. A number
without a fraction ends in `ending`. -/
def positional (d : Decimal) (ending : List Char) : List Char :=
  let ds := d.digitChars
  if d.point ≤ 0 then '0' :: '.' :: (List.replicate (-d.point).toNat '0' ++ ds)
  else if d.point < ds.length then ds.take d.point.toNat ++ '.' :: ds.drop d.point.toNat
  else ds ++ List.replicate (d.point - ds.length).toNat '0' ++ ending

/-- One digit, the fraction, and the power of ten behind `mark`. A missing fraction is written
`lone`. -/
def scientific (d : Decimal) (lone : List Char) (mark : Char) : List Char :=
  let fraction := match d.digitChars.drop 1 with
    | [] => lone
    | rest => '.' :: rest
  d.digitChars.take 1 ++ fraction ++ mark :: (toString (d.point - 1)).toList

end Decimal

namespace Number

/-- The text of a magnitude with its sign in front. -/
def signed (n : Number) (magnitude : List Char) : String :=
  String.ofList (if n.isNegative then '-' :: magnitude else magnitude)

/-- The bounds of the layouts, as doubles. -/
def thousandth : Number := Decimal.toNumber false ⟨1, -3⟩

def tenMillion : Number := ofNat (Nat.pow 10 7)

def tenThousandth : Number := Decimal.toNumber false ⟨1, -4⟩

def tenQuadrillion : Number := ofNat (Nat.pow 10 16)

/-- The text of a number in a script. Negative zero is written `0`. -/
def text (n : Number) : String :=
  if n.isNaN then "NaN"
  else if n.isInfinite then n.signed "Infinity".toList
  else if n.isWhole && n.wholePart < Nat.pow 2 63 then
    if n.isZero then "0" else n.signed (Nat.toDigits 10 n.wholePart)
  else if thousandth.code ≤ n.code && n.code < tenMillion.code then
    n.signed (n.shortest.positional [])
  else n.signed (n.shortest.scientific ['.', '0'] 'E')

/-- The text of a number written out in full. -/
def plainText (n : Number) : String :=
  if n.isNaN then "NaN"
  else if n.isInfinite then n.signed "inf".toList
  else if n.isZero then n.signed ['0']
  else n.signed (n.shortest.positional [])

/-- The text of a number in a listing of tokens or syntax trees. -/
def debugText (n : Number) : String :=
  if n.isNaN then "NaN"
  else if n.isInfinite then n.signed "inf".toList
  else if n.isZero then n.signed ['0', '.', '0']
  else if tenThousandth.code ≤ n.code && n.code < tenQuadrillion.code then
    n.signed (n.shortest.positional ['.', '0'])
  else n.signed (n.shortest.scientific [] 'e')

/-- The text of a number as the key of an object literal: an integer below a quadrillion, and
written out in full otherwise. -/
def keyText (n : Number) : String :=
  if n.isWhole && n.wholePart < Nat.pow 10 15 then
    if n.isZero then "0" else n.signed (Nat.toDigits 10 n.wholePart)
  else n.plainText

end Number

end Quill
