import SchemaDialects.Text.PrintableTables

/-!
# Text inside messages

A message that quotes a piece of its input must show it on one line and unambiguously: quotes
and backslashes are escaped, and so is every character that cannot be seen on its own.
-/

namespace SchemaDialects.Text

/-- The hexadecimal digits of `n`, in lower case and without leading zeros. -/
def hexDigits (n : Nat) : List Char :=
  Nat.toDigits 16 n

/-- One character of a message; `quote` is the mark that encloses the quotation. -/
def escapeChar (quote : Char) (c : Char) : List Char :=
  if c = '\x00' then ['\\', '0']
  else if c = '\t' then ['\\', 't']
  else if c = '\r' then ['\\', 'r']
  else if c = '\n' then ['\\', 'n']
  else if c = '\\' || c = quote then ['\\', c]
  else if c.toNat < 0x7F && 0x20 ≤ c.toNat then [c]
  else if graphemeExtend.contains c || unprintable.contains c then
    ['\\', 'u', '\x7b'] ++ hexDigits c.toNat ++ ['\x7d']
  else [c]

/-- `s` between double quotes. -/
def quoted (s : String) : String :=
  String.ofList ('"' :: s.toList.flatMap (escapeChar '"') ++ ['"'])

/-- `c` between single quotes. -/
def quotedChar (c : Char) : String :=
  String.ofList ('\'' :: escapeChar '\'' c ++ ['\''])

end SchemaDialects.Text
