/-!
# Decimal digits

Naturals and integers as decimal digits, and back. Only the ASCII digits count as digits. A
written number has no leading zero and a sign only if it is negative; reading is more liberal:
leading zeros and a plus sign are accepted.
-/

namespace RecordForge.Decimal

/-- The digits of a natural, without leading zeros. -/
def digits (n : Nat) : List Char :=
  Nat.toDigits 10 n

def ofDigits (cs : List Char) : Nat :=
  Nat.ofDigitChars 10 cs 0

/-- The digits of a natural, filled with zeros on the left up to a width. -/
def padded (width n : Nat) : List Char :=
  List.replicate (width - (digits n).length) '0' ++ digits n

/-- An integer: a minus sign if it is negative, then its digits. -/
def signed (n : Int) : List Char :=
  if n < 0 then '-' :: digits n.natAbs else digits n.natAbs

/-- Reads a text that is digits only, and at least one. -/
def readNat? (cs : List Char) : Option Nat :=
  if cs.isEmpty || !cs.all Char.isDigit then none else some (ofDigits cs)

/-- Reads digits after an optional sign. -/
def readInt? : List Char → Option Int
  | '-' :: cs => (readNat? cs).map fun n => -(n : Int)
  | '+' :: cs => (readNat? cs).map Int.ofNat
  | cs => (readNat? cs).map Int.ofNat

theorem digits_ne_nil (n : Nat) : digits n ≠ [] :=
  Nat.toDigits_ne_nil

theorem all_isDigit_digits (n : Nat) : (digits n).all Char.isDigit = true :=
  List.all_eq_true.2 fun _ h => Nat.isDigit_of_mem_toDigits (by decide) (by decide) h

theorem ofDigits_digits (n : Nat) : ofDigits (digits n) = n :=
  Nat.ofDigitChars_toDigits (by decide) (by decide)

end RecordForge.Decimal
