import Quill.Number.Decimal
import Quill.Text.Blank

/-!
# Reading numbers

A number in text is an optional sign and then digits, at most one decimal point among or beside
them, and an optional exponent; or one of the words `inf`, `infinity` and `nan` in any case. A
decimal point needs a digit on one side only. All other text reads as NaN.
-/

set_option autoImplicit false

namespace Quill

/-- The natural number that decimal digits spell. -/
def Decimal.ofDigits (cs : List Char) : Nat :=
  cs.foldl (fun n c => 10 * n + (c.toNat - '0'.toNat)) 0

/-- An exponent: an optional sign and at least one digit, nothing else. -/
def Decimal.exponent? : List Char → Option Int
  | '+' :: cs => natural? cs
  | '-' :: cs => (natural? cs).map (-·)
  | cs => natural? cs
where
  /-- A non-empty run of digits up to the end. -/
  natural? (cs : List Char) : Option Int :=
    if cs.isEmpty || !cs.all Char.isDigit then none else some (Decimal.ofDigits cs)

/-- The digits that begin `cs` and what follows them. -/
def Decimal.spanDigits (cs : List Char) : List Char × List Char :=
  (cs.takeWhile Char.isDigit, cs.dropWhile Char.isDigit)

/-- An unsigned decimal. -/
def Decimal.read? (cs : List Char) : Option Decimal :=
  let (whole, afterWhole) := spanDigits cs
  let (fraction, afterFraction) := match afterWhole with
    | '.' :: more => spanDigits more
    | more => ([], more)
  if whole.isEmpty && fraction.isEmpty then none
  else
    let exponent := match afterFraction with
      | [] => some 0
      | mark :: more => if mark == 'e' || mark == 'E' then exponent? more else none
    exponent.map fun e => ⟨ofDigits (whole ++ fraction), e - fraction.length⟩

namespace Number

/-- An unsigned number with a sign already read. -/
def readMagnitude? (negative : Bool) (cs : List Char) : Option Number :=
  let word := String.ofList (cs.map Char.toLower)
  if word = "inf" || word = "infinity" then some (ofCode negative infinityCode)
  else if word = "nan" then some nan
  else (Decimal.read? cs).map (Decimal.toNumber negative)

/-- A number with an optional sign, taking up all of the text. -/
def read? : List Char → Option Number
  | '+' :: cs => readMagnitude? false cs
  | '-' :: cs => readMagnitude? true cs
  | cs => readMagnitude? false cs

/-- The number that a text spells between blanks, NaN when it spells none. -/
def ofText (s : String) : Number := (read? (Text.trim s.toList)).getD nan

end Number

end Quill
