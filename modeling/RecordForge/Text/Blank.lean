/-!
# Blank characters

The characters with the Unicode property `White_Space`, and text without the blanks around it.
The set is wider than the ASCII blanks: it has the next-line control, the no-break space, the
typographic spaces and both separators.
-/

namespace RecordForge.Text

/-- The Unicode property `White_Space`. -/
def isBlank (c : Char) : Bool :=
  let n := c.toNat
  (9 ≤ n && n ≤ 13) || n == 32 || n == 0x85 || n == 0xa0 || n == 0x1680 ||
    (0x2000 ≤ n && n ≤ 0x200a) || n == 0x2028 || n == 0x2029 || n == 0x202f || n == 0x205f ||
    n == 0x3000

/-- The text from its first character that is not blank. -/
def dropBlanks (cs : List Char) : List Char :=
  cs.dropWhile isBlank

/-- The text without the blanks at its two ends. -/
def trim (cs : List Char) : List Char :=
  (dropBlanks (dropBlanks cs).reverse).reverse

end RecordForge.Text
