import RecordForge.Text.Hidden

/-!
# Quoted text

Text as a diagnostic shows it: between double quotes, on one line, with nothing in it that cannot
be seen. A quote and a backslash are written after a backslash, five controls by a letter or
digit, and every hidden or extending character by its code point in hexadecimal.
-/

namespace RecordForge.Text

/-- A code point between braces, in hexadecimal without leading zeros. -/
def codePoint (c : Char) : List Char :=
  ['\\', 'u', '\x7b'] ++ Nat.toDigits 16 c.toNat ++ ['\x7d']

/-- How one character stands inside quotes. -/
def quoteChar (c : Char) : List Char :=
  if c = '\x00' then ['\\', '0']
  else if c = '\t' then ['\\', 't']
  else if c = '\r' then ['\\', 'r']
  else if c = '\n' then ['\\', 'n']
  else if c = '"' then ['\\', '"']
  else if c = '\\' then ['\\', '\\']
  else if isExtending c || isHidden c then codePoint c
  else [c]

def quote (s : String) : String :=
  String.ofList (['"'] ++ s.toList.flatMap quoteChar ++ ['"'])

end RecordForge.Text
