import CircuitExpr.Text.Visible

/-!
# Quoted texts

A text between double quotes. Quotes and backslashes are escaped by a backslash, the common
controls by a letter, and every other character that does not show by its code point.
-/

namespace CircuitExpr.Text

/-- The lower case hexadecimal digits of a code point. -/
def hexadecimal (n : Nat) : List Char := Nat.toDigits 16 n

/-- One character as it stands between quotes. -/
def quoteChar (c : Char) : List Char :=
  if c == '"' || c == '\\' then ['\\', c]
  else if c == '\n' then ['\\', 'n']
  else if c == '\t' then ['\\', 't']
  else if c == '\r' then ['\\', 'r']
  else if c.toNat == 0 then ['\\', '0']
  else if shows c then [c]
  else '\\' :: 'u' :: '\x7b' :: hexadecimal c.toNat ++ ['\x7d']

/-- A text between quotes. -/
def quote (s : String) : String :=
  String.ofList ('"' :: s.toList.flatMap quoteChar ++ ['"'])

end CircuitExpr.Text
