import RecordForge.Rounding

/-!
# Binary floating-point numbers

A format stores a sign, an exponent and a fraction. We keep the sign apart and read exponent and
fraction as one natural, the *code*: codes are ordered as the magnitudes that they stand for, with
infinity after the last finite one and the codes beyond infinity for NaN.

Every finite magnitude is a whole number of the format's smallest steps, its *units*; a step is
`2 ^ -places`. So all arithmetic on magnitudes is arithmetic on naturals. `Format.nearest` rounds
a quotient of naturals, counted in steps, to the code of the nearest magnitude.
-/

namespace RecordForge

namespace Binary

/-- The widths of the two fields of a magnitude, in bits. -/
structure Format where
  fraction : Nat
  exponent : Nat
deriving DecidableEq, Repr

namespace Format

def single : Format := ⟨23, 8⟩

def double : Format := ⟨52, 11⟩

variable (f : Format)

/-- How many codes there are. -/
def codes : Nat := Nat.pow 2 (f.exponent + f.fraction)

/-- The code of infinity: all ones in the exponent, none in the fraction. -/
def infinity : Nat := (Nat.pow 2 f.exponent - 1) * Nat.pow 2 f.fraction

/-- How many binary places the smallest step has. -/
def places : Nat := Nat.pow 2 (f.exponent - 1) - 2 + f.fraction

/-- The magnitude of a finite code, counted in smallest steps. An exponent field of zero adds no
leading one and stands for the same scale as a field of one. -/
def units (code : Nat) : Nat :=
  let e := code / Nat.pow 2 f.fraction
  if e = 0 then code else (Nat.pow 2 f.fraction + code % Nat.pow 2 f.fraction) * Nat.pow 2 (e - 1)

/-- The code of the magnitude nearest to `n / d` smallest steps, a tie going to the even code.
Scaling by the excess of leading bits leaves a significand to round; a significand that rounds up
to the next power of two carries into the exponent field by itself. -/
def nearest (n d : Nat) : Nat :=
  let scale := (n / d).log2 - f.fraction
  min (scale * Nat.pow 2 f.fraction + divEven n (d * Nat.pow 2 scale)) f.infinity

end Format

end Binary

/-- A number of a binary format: a sign and the code of a magnitude. -/
structure Binary (f : Binary.Format) where
  negative : Bool
  code : Nat
  code_lt : code < f.codes
deriving DecidableEq

namespace Binary

variable {f : Format}

/-- The number with a sign and a code; a code that is too large is cut to the format's bits. -/
def ofCode (negative : Bool) (code : Nat) : Binary f where
  negative
  code := code % f.codes
  code_lt := Nat.mod_lt _ (Nat.two_pow_pos _)

/-- The number with these bits: the sign on top, then the code. -/
def ofBits (bits : Nat) : Binary f :=
  ofCode (bits / f.codes % 2 == 1) bits

def bits (x : Binary f) : Nat :=
  (if x.negative then f.codes else 0) + x.code

def zero : Binary f := ofCode false 0

def infinite (negative : Bool) : Binary f := ofCode negative f.infinity

/-- The NaN whose fraction has only its top bit. -/
def nan : Binary f := ofCode false (f.infinity + Nat.pow 2 (f.fraction - 1))

def isNaN (x : Binary f) : Bool := f.infinity < x.code

def isInfinite (x : Binary f) : Bool := x.code == f.infinity

def isFinite (x : Binary f) : Bool := x.code < f.infinity

def isZero (x : Binary f) : Bool := x.code == 0

/-- Equality of numbers: a NaN is equal to nothing, and the two zeros are equal. -/
def same (x y : Binary f) : Bool :=
  !x.isNaN && !y.isNaN && x.code == y.code && (x.negative == y.negative || x.code == 0)

/-- The number nearest to `± n / d`. -/
def ofQuotient (negative : Bool) (n d : Nat) : Binary f :=
  ofCode negative (f.nearest (n * Nat.pow 2 f.places) d)

/-- The number nearest to an integer. -/
def ofInt (n : Int) : Binary f :=
  ofQuotient (n < 0) n.natAbs 1

/-- The integer nearest to a number, a tie going to the even one; none for NaN and infinity. -/
def toInt? (x : Binary f) : Option Int :=
  if x.isFinite then
    let n := (divEven (f.units x.code) (Nat.pow 2 f.places) : Int)
    some (if x.negative then -n else n)
  else none

def convert {g : Format} (x : Binary f) : Binary g :=
  if x.isNaN then nan
  else if x.isInfinite then infinite x.negative
  else ofQuotient x.negative (f.units x.code) (Nat.pow 2 f.places)

end Binary

abbrev Single := Binary .single

abbrev Double := Binary .double

end RecordForge
