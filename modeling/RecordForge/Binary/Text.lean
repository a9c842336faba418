import RecordForge.Binary.Format
import RecordForge.Decimal.Digits

/-!
# Binary numbers as decimal text

**Writing** takes the fewest digits that read back, and of those the nearest to the number, a tie
going up. It is positional for every magnitude: there is never an exponent, and a whole number has
no point. The search starts from the exact expansion: a magnitude of `u` steps is the natural
`u * 5 ^ places` shifted down by `places` decimal places, and a shorter decimal is that natural
with its low digits rounded away.

**Reading** accepts digits with a point anywhere among them, an optional exponent, an optional
sign, and in any case of letters the words `inf`, `infinity` and `nan`; it rounds to nearest.
-/

namespace RecordForge.Binary

open RecordForge.Decimal

variable {f : Format}

/-! ## Writing -/

/-- The exact decimal expansion of a finite code, without its `places` decimal places. -/
def expansion (f : Format) (code : Nat) : Nat :=
  f.units code * Nat.pow 5 f.places

/-- Whether `m` reads back as a code when `drop` low digits of the expansion are gone. -/
def readsBack (f : Format) (code drop m : Nat) : Bool :=
  f.nearest (m * Nat.pow 10 drop) (Nat.pow 5 f.places) == code

/-- The two neighbours of the expansion on the grid without its `drop` low digits, the nearer
first and of two equally near ones the upper. -/
def neighbours (f : Format) (code drop : Nat) : List Nat :=
  let n := expansion f code
  let low := n / Nat.pow 10 drop
  if 2 * (n % Nat.pow 10 drop) < Nat.pow 10 drop then [low, low + 1] else [low + 1, low]

/-- The fewest digits that read back as a finite code, and how many digits of the expansion they
leave out. -/
def shortest (f : Format) (code : Nat) : Nat × Nat :=
  let length := (digits (expansion f code)).length
  let found := (List.range length).findSome? fun kept =>
    let drop := length - (kept + 1)
    ((neighbours f code drop).find? (readsBack f code drop)).map fun m => (m, drop)
  found.getD (expansion f code, 0)

/-- The digits of `m` with a point before the last `places` of them; no zero at the end of a
fraction, and no point without one. -/
def positional (m places : Nat) : List Char :=
  let ds := padded (places + 1) m
  let whole := ds.take (ds.length - places)
  let part := ((ds.drop (ds.length - places)).reverse.dropWhile (· == '0')).reverse
  if part.isEmpty then whole else whole ++ '.' :: part

/-- The magnitude of a finite code in positional notation. -/
def magnitude (f : Format) (code : Nat) : List Char :=
  let (m, drop) := shortest f code
  positional (m * Nat.pow 10 (drop - f.places)) (f.places - drop)

def toText (x : Binary f) : String :=
  if x.isNaN then "NaN"
  else
    let body := if x.isInfinite then ['i', 'n', 'f'] else magnitude f x.code
    String.ofList (if x.negative then '-' :: body else body)

/-! ## Reading -/

/-- The code nearest to `m * 10 ^ (up - down)`. Far beyond the format's range the answer is known
without computing the power. -/
def ofScientific (f : Format) (m up down : Nat) : Nat :=
  let reach := Nat.pow 2 f.exponent + f.fraction
  let length := (digits m).length
  if m = 0 then 0
  else if down + reach < length + up then f.infinity
  else if length + up + reach < down then 0
  else f.nearest (m * Nat.pow 10 (up - down) * Nat.pow 2 f.places) (Nat.pow 10 (down - up))

/-- The exponent after a number's digits: nothing, or a mark, an optional sign and digits. The
answer is the shift up and the shift down. -/
def readExponent? : List Char → Option (Nat × Nat)
  | [] => some (0, 0)
  | c :: cs =>
    if c != 'e' && c != 'E' then none
    else match cs with
      | '-' :: ds => (readNat? ds).map fun n => (0, n)
      | '+' :: ds => (readNat? ds).map fun n => (n, 0)
      | ds => (readNat? ds).map fun n => (n, 0)

/-- Reads digits with at most one point among them and an optional exponent after them. -/
def readMagnitude? (f : Format) (cs : List Char) : Option Nat :=
  let whole := cs.takeWhile Char.isDigit
  let rest := cs.dropWhile Char.isDigit
  let (part, rest) := match rest with
    | '.' :: ds => (ds.takeWhile Char.isDigit, ds.dropWhile Char.isDigit)
    | _ => ([], rest)
  if whole.isEmpty && part.isEmpty then none
  else (readExponent? rest).map fun (up, down) =>
    ofScientific f (ofDigits (whole ++ part)) up (down + part.length)

/-- Reads one of the words for infinity and NaN. -/
def readWord? (f : Format) (cs : List Char) : Option Nat :=
  let word := String.ofList (cs.map Char.toLower)
  if word == "inf" || word == "infinity" then some f.infinity
  else if word == "nan" then some (f.infinity + Nat.pow 2 (f.fraction - 1))
  else none

def read? (f : Format) (cs : List Char) : Option (Binary f) :=
  let (negative, body) := match cs with
    | '-' :: ds => (true, ds)
    | '+' :: ds => (false, ds)
    | ds => (false, ds)
  ((readMagnitude? f body).orElse fun _ => readWord? f body).map (ofCode negative)

end RecordForge.Binary
