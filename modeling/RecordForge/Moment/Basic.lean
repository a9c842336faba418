/-!
# Moments

A date of the proleptic Gregorian calendar with a time of day, without a zone. Year 0 exists and
years may be negative. A *leap second* is told by the count of nanoseconds, which then goes on from
one thousand million. It may come after any second, not only after the last one of a minute.
-/

namespace RecordForge

namespace Moment

/-- The years that a date may have. -/
def leastYear : Int := -262143

@[inherit_doc leastYear]
def greatestYear : Int := 262142

/-- Whether a year has a 29th of February. -/
def isLeapYear (year : Int) : Bool :=
  year % 4 == 0 && (year % 100 != 0 || year % 400 == 0)

/-- The number of days of a month; none in a month that does not exist. -/
def daysIn (year : Int) (month : Nat) : Nat :=
  match month with
  | 1 | 3 | 5 | 7 | 8 | 10 | 12 => 31
  | 4 | 6 | 9 | 11 => 30
  | 2 => if isLeapYear year then 29 else 28
  | _ => 0

/-- Whether the three parts are a date. -/
def isDate (year : Int) (month day : Nat) : Bool :=
  leastYear ≤ year && year ≤ greatestYear && 1 ≤ day && day ≤ daysIn year month

/-- Whether the four parts are a time of day. -/
def isTime (hour minute second nanos : Nat) : Bool :=
  hour < 24 && minute < 60 && second < 60 && nanos < 2000000000

end Moment

/-- A date and a time of day. -/
structure Moment where
  year : Int
  month : Nat
  day : Nat
  hour : Nat
  minute : Nat
  second : Nat
  nanos : Nat
  date_ok : Moment.isDate year month day = true
  time_ok : Moment.isTime hour minute second nanos = true
deriving DecidableEq

namespace Moment

/-- The moment with these parts, if they are one. -/
def ofParts? (year : Int) (month day hour minute second nanos : Nat) : Option Moment :=
  if hd : isDate year month day = true then
    if ht : isTime hour minute second nanos = true then
      some ⟨year, month, day, hour, minute, second, nanos, hd, ht⟩
    else none
  else none

/-- The first moment of the year 1970. -/
def epoch : Moment := ⟨1970, 1, 1, 0, 0, 0, 0, by decide, by decide⟩

theorem ofParts?_self (m : Moment) :
    ofParts? m.year m.month m.day m.hour m.minute m.second m.nanos = some m := by
  simp [ofParts?, m.date_ok, m.time_ok]

end Moment

end RecordForge
