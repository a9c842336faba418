import RecordForge.Moment.Basic
import RecordForge.Decimal.Digits

/-!
# Writing moments

`YYYY-MM-DD HH:MM:SS`, then the fraction of the second if it is not zero: with three, six or nine
digits, the least number that is enough. A year outside 0 to 9999 has a sign and at least four
digits. A leap second is written as the second that follows: as second 60, if it ends a minute.
-/

namespace RecordForge.Moment

open RecordForge.Decimal

/-- A year with at least four digits; with a sign unless it is within 0 to 9999. -/
def yearText (year : Int) : List Char :=
  let body := padded 4 year.natAbs
  if year < 0 then '-' :: body
  else if 9999 < year then '+' :: body
  else body

/-- The fraction of a second: a point and three, six or nine digits, or nothing. -/
def fractionText (nanos : Nat) : List Char :=
  if nanos = 0 then []
  else if nanos % 1000000 = 0 then '.' :: padded 3 (nanos / 1000000)
  else if nanos % 1000 = 0 then '.' :: padded 6 (nanos / 1000)
  else '.' :: padded 9 nanos

/-- The seconds that are shown, and the nanoseconds after them: a leap second goes on counting. -/
def shownSecond (second nanos : Nat) : Nat × Nat :=
  if 1000000000 ≤ nanos then (second + 1, nanos - 1000000000) else (second, nanos)

def toChars (m : Moment) : List Char :=
  let (second, nanos) := shownSecond m.second m.nanos
  yearText m.year ++ '-' :: padded 2 m.month ++ '-' :: padded 2 m.day ++
    ' ' :: padded 2 m.hour ++ ':' :: padded 2 m.minute ++ ':' :: padded 2 second ++
    fractionText nanos

end RecordForge.Moment
