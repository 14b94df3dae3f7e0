import Quill.Number.Reading
import Quill.Number.Text

/-!
# Values

What a script computes with. Arrays, objects and functions are references into the heap, so a copy
of the value is the same container; everything else is a value of its own. Coercions need no heap:
they look at a container's kind and never inside.
-/

set_option autoImplicit false

namespace Quill

/-- The place of an array in the heap. -/
structure ArrayRef where
  index : Nat
deriving DecidableEq, Repr

/-- The place of an object in the heap. -/
structure ObjectRef where
  index : Nat
deriving DecidableEq, Repr

/-- The place of a function in the heap. -/
structure FunctionRef where
  index : Nat
deriving DecidableEq, Repr

/-- A value of the host that scripts pass around and compare, and cannot look into. -/
structure Handle where
  /-- Tells handles apart. -/
  id : Nat
  /-- What a script sees as text. -/
  label : String
  /-- What the host keeps in it. -/
  data : Option Int
deriving DecidableEq, Repr

/-- A value of a script. Arrays, objects and functions are references into the heap. -/
inductive Value
  | null
  | bool (value : Bool)
  | number (value : Number)
  | string (value : String)
  | function (ref : FunctionRef)
  | object (ref : ObjectRef)
  | array (ref : ArrayRef)
  | native (handle : Handle)
deriving DecidableEq, Repr, Inhabited

namespace Value

/-- The kind of a value, as a script can ask for it. -/
def typeName : Value → String
  | null => "null"
  | bool _ => "boolean"
  | number _ => "number"
  | string _ => "string"
  | function _ => "function"
  | object _ => "object"
  | array _ => "array"
  | native _ => "native"

/-- The value is null. -/
def isNull : Value → Bool
  | null => true
  | _ => false

/-! ## Coercions -/

/-- Null, `false`, both zeros and the empty string are false; NaN and empty containers are true. -/
def toBool : Value → Bool
  | null => false
  | bool b => b
  | number n => !n.isZero
  | string s => !s.isEmpty
  | _ => true

/-- Strings are read as numbers; null, functions and containers are NaN. -/
def toNumber : Value → Number
  | number n => n
  | bool b => if b then Number.one else Number.zero
  | string s => Number.ofText s
  | _ => Number.nan

/-- The text of a value. Arrays, objects and functions do not show what they hold. -/
def toText : Value → String
  | null => "null"
  | bool b => if b then "true" else "false"
  | number n => n.text
  | string s => s
  | function _ => "[Function]"
  | object _ => "[Object]"
  | array _ => "[Array]"
  | native h => h.label

/-- The value as an index or a count. -/
def toIndex (v : Value) : Int := v.toNumber.toIndex

/-- The value as a position counted from zero. -/
def toPosition? (v : Value) : Option Nat :=
  match v.toIndex with
  | .ofNat i => some i
  | .negSucc _ => none

/-- A natural number as a value. -/
def ofNat (n : Nat) : Value := number (Number.ofNat n)

/-- A text as a value. -/
def ofChars (cs : List Char) : Value := string (String.ofList cs)

/-! ## Arithmetic and order -/

/-- Joins texts when one side is a string, and adds numbers otherwise. -/
protected def add (a b : Value) : Value :=
  match a, b with
  | string s, _ => string (s ++ b.toText)
  | _, string s => string (a.toText ++ s)
  | _, _ => number (a.toNumber + b.toNumber)

protected def sub (a b : Value) : Value := number (a.toNumber - b.toNumber)

protected def mul (a b : Value) : Value := number (a.toNumber * b.toNumber)

protected def div (a b : Value) : Value := number (a.toNumber / b.toNumber)

protected def rem (a b : Value) : Value := number (a.toNumber % b.toNumber)

/-- The order of values as numbers, whatever their kinds. -/
protected def compare (a b : Value) : Ordering := a.toNumber.compare b.toNumber

end Value

end Quill
