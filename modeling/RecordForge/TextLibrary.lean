import RecordForge.Guid
import RecordForge.Moment.Printer
import RecordForge.Moment.Reader

/-!
# Libraries of moments and identifiers

Moments and identifiers are written and read by a library. What is done with its answers is the same
for every library; the one that runs is `TextLibrary.standard`.
-/

namespace RecordForge

/-- How a date and a time are written together: with a blank or with a `T` between them. -/
inductive MomentForm where
  | spaced
  | lettered

/-- What a library does with moments, dates and identifiers as text. -/
structure TextLibrary where
  writeMoment : Moment → List Char
  readMoment? : MomentForm → List Char → Option Moment
  readDate? : List Char → Option (Int × Nat × Nat)
  writeGuid : Guid → List Char
  readGuid? : List Char → Option Guid

namespace TextLibrary

/-- The library that runs. Where a blank is to stand between date and time, any number of them may. -/
def standard : TextLibrary where
  writeMoment := Moment.toChars
  readMoment?
    | .spaced => Moment.readWith fun cs => some ((), Text.dropBlanks cs)
    | .lettered => Moment.readWith (Moment.expect 'T')
  readDate? := Moment.readDay
  writeGuid := Guid.hyphenated
  readGuid? := Guid.read?

variable (lib : TextLibrary)

/-- Reads a moment in the first form that fits; a date alone stands for the first moment of the day. -/
def moment? (cs : List Char) : Option Moment :=
  (lib.readMoment? .spaced cs).orElse fun _ =>
    (lib.readMoment? .lettered cs).orElse fun _ =>
      (lib.readDate? cs).bind fun (year, month, day) => Moment.ofParts? year month day 0 0 0 0

end TextLibrary

end RecordForge
