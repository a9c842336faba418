import RecordForge.Moment.Basic
import RecordForge.Decimal.Digits
import RecordForge.Text.Blank

/-!
# Reading moments

A date, or a date and a time with blanks or a `T` between them. Each number may have blanks in
front of it and takes as many digits as its place allows: four for a year without a sign, any
number for a year with one, two for all others. The second may be followed by a fraction, of which
nine digits count; second 60 is the leap second. The whole text has to be used.

Every part of the reader takes characters and gives what it read with the characters after it.
-/

namespace RecordForge.Moment

open RecordForge.Decimal RecordForge.Text

/-- What was read, and the rest. -/
abbrev Step (α : Type) := List Char → Option (α × List Char)

/-- At least one digit and at most `most`. -/
def readDigits (most : Nat) : Step (List Char) := fun cs =>
  let ds := (cs.take most).takeWhile Char.isDigit
  if ds.isEmpty then none else some (ds, cs.drop ds.length)

/-- A number of at most `most` digits after any blanks. -/
def readNumber (most : Nat) : Step Nat := fun cs =>
  (readDigits most (dropBlanks cs)).map fun (ds, rest) => (ofDigits ds, rest)

/-- A year: of any length after a sign, else of at most four digits. -/
def readYear : Step Int := fun cs =>
  match dropBlanks cs with
  | '-' :: ds => (readDigits ds.length ds).map fun (n, rest) => (-(ofDigits n : Int), rest)
  | '+' :: ds => (readDigits ds.length ds).map fun (n, rest) => ((ofDigits n : Int), rest)
  | ds => (readDigits 4 ds).map fun (n, rest) => ((ofDigits n : Int), rest)

def expect (c : Char) : Step Unit
  | [] => none
  | d :: rest => if d = c then some ((), rest) else none

/-- A fraction of a second in nanoseconds: after a point up to nine digits, and the digits beyond
them are passed over. Without a point it is zero. -/
def readFraction : Step Nat
  | '.' :: cs => (readDigits 9 cs).map fun (ds, rest) =>
      (ofDigits ds * Nat.pow 10 (9 - ds.length), rest.dropWhile Char.isDigit)
  | cs => some (0, cs)

/-- Year, month and day with hyphens between them. -/
def readDate : Step (Int × Nat × Nat) := fun cs => do
  let (year, cs) ← readYear cs
  let ((), cs) ← expect '-' cs
  let (month, cs) ← readNumber 2 cs
  let ((), cs) ← expect '-' cs
  let (day, cs) ← readNumber 2 cs
  return ((year, month, day), cs)

/-- Hour, minute, second and nanoseconds; second 60 becomes the leap second. -/
def readTime : Step (Nat × Nat × Nat × Nat) := fun cs => do
  let (hour, cs) ← readNumber 2 cs
  let ((), cs) ← expect ':' cs
  let (minute, cs) ← readNumber 2 cs
  let ((), cs) ← expect ':' cs
  let (second, cs) ← readNumber 2 cs
  let (nanos, cs) ← readFraction cs
  if second = 60 then return ((hour, minute, 59, nanos + 1000000000), cs)
  else return ((hour, minute, second, nanos), cs)

/-- A date and a time, with what `gap` reads between them, and nothing after them. -/
def readWith (gap : Step Unit) (cs : List Char) : Option Moment := do
  let ((year, month, day), cs) ← readDate cs
  let ((), cs) ← gap cs
  let ((hour, minute, second, nanos), cs) ← readTime cs
  if cs.isEmpty then ofParts? year month day hour minute second nanos else none

def readDay (cs : List Char) : Option (Int × Nat × Nat) := do
  let ((year, month, day), cs) ← readDate cs
  if cs.isEmpty && isDate year month day then return (year, month, day) else none

end RecordForge.Moment
