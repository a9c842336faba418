/-!
# Hexadecimal digits

Reading numbers to the base 16, with letters of any case.
-/

namespace RecordForge.Text

/-- The value of a hexadecimal digit. -/
def hexDigit? (c : Char) : Option Nat :=
  if '0' ≤ c ∧ c ≤ '9' then some (c.toNat - '0'.toNat)
  else if 'a' ≤ c ∧ c ≤ 'f' then some (c.toNat - 'a'.toNat + 10)
  else if 'A' ≤ c ∧ c ≤ 'F' then some (c.toNat - 'A'.toNat + 10)
  else none

/-- The number that hexadecimal digits stand for. -/
def ofHex? (cs : List Char) : Option Nat :=
  (cs.mapM hexDigit?).map fun ds => ds.foldl (fun n d => 16 * n + d) 0

/-- The character with a code point, if there is one. -/
def charOfCode? (n : Nat) : Option Char :=
  let c := Char.ofNat n
  if c.toNat = n then some c else none

end RecordForge.Text
