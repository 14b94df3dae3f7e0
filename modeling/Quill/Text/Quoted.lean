import Quill.Text.Classes

/-!
# Quoted text

The form in which listings show a string: between double quotes, with short escapes for the
commonest controls, the backslash and the double quote, and the code of every other character that
would not show.
-/

set_option autoImplicit false

namespace Quill.Text

/-- A character by its code, in lower case hexadecimal. -/
def codeEscape (c : Char) : List Char :=
  r"\u{".toList ++ Nat.toDigits 16 c.toNat ++ ['}']

/-- One character inside quotes. -/
def quoteChar (c : Char) : List Char :=
  if c == '\x00' then ['\\', '0']
  else if c == '\t' then ['\\', 't']
  else if c == '\r' then ['\\', 'r']
  else if c == '\n' then ['\\', 'n']
  else if c == '\\' then ['\\', '\\']
  else if c == '"' then ['\\', '"']
  else if isEscaped c then codeEscape c
  else [c]

/-- A string between double quotes. -/
def quoted (s : String) : String :=
  String.ofList ('"' :: s.toList.flatMap quoteChar ++ ['"'])

end Quill.Text
