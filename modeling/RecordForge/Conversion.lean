import RecordForge.Diagnostics
import RecordForge.Fault

/-!
# Conversion and casting

**Conversion** changes the representation of a value to that of a kind: it reads text, narrows
integers and rounds floating-point numbers. Null becomes what an empty place of the kind holds.

Between numbers, and from truth values, characters and text that reads as a number, conversion
goes through a *number*: an integer of at most 128 bits or a 64-bit floating-point number. Text is
an integer if it reads as one of that size, else a floating-point number.

**Casting** changes nothing: it only checks that a value may be stored where a type is expected.
-/

namespace RecordForge

/-- The integers of 128 bits. -/
def isWideInteger (n : Int) : Bool :=
  -0x80000000000000000000000000000000 ≤ n && n ≤ 0x7fffffffffffffffffffffffffffffff

/-- What the numeric kinds have in common. -/
inductive Number where
  | integer (n : Int)
  | float (x : Double)

namespace Number

/-- The integer that a number is rounded to: the nearest, of two the even one. None is rounded to that
has more than 128 bits. -/
def toInt? : Number → Option Int
  | .integer n => some n
  | .float x => x.toInt?.filter isWideInteger

def toDouble : Number → Double
  | .integer n => .ofInt n
  | .float x => x

def isNonzero : Number → Bool
  | .integer n => n != 0
  | .float x => !x.isZero

end Number

namespace Scalar

/-- The number that text stands for, apart from blanks at its ends. -/
def numberOfText? (s : String) : Option Number :=
  let cs := Text.trim s.toList
  match (Decimal.readInt? cs).filter isWideInteger with
  | some n => some (.integer n)
  | none => (Binary.read? .double cs).map .float

/-- The number that a scalar stands for. -/
def number? : Scalar → Option Number
  | bool b => some (.integer (if b then 1 else 0))
  | char c => some (.integer c.toNat)
  | integer n => some (.integer n.val)
  | single x => some (.float x.convert)
  | double x => some (.float x)
  | text s => numberOfText? s
  | moment _ | guid _ => none

/-- The truth value that text stands for, in any case of letters. -/
def boolOfText? (s : String) : Option Bool :=
  let word := String.ofList ((Text.trim s.toList).map Char.toLower)
  if word == "true" then some true
  else if word == "false" then some false
  else none

def charOfText? (s : String) : Option Char :=
  match s.toList with
  | [c] => some c
  | _ => none

def charOfCode? (n : Int) : Option Char :=
  if 0 ≤ n then Text.charOfCode? n.toNat else none

/-- A scalar as a scalar of another kind. -/
def convert? (x : Scalar) (k : Kind) (lib : TextLibrary := .standard) : Option Scalar :=
  match k with
  | .text => some (.text (x.toText lib))
  | .bool => match x with
    | text s => (boolOfText? s).map .bool
    | char _ => none
    | _ => x.number?.map fun n => .bool n.isNonzero
  | .char => match x with
    | text s => (charOfText? s).map .char
    | bool _ => none
    | _ => match x.number? with
      | some (.integer n) => (charOfCode? n).map .char
      | _ => none
  | .single => x.number?.map fun n => .single n.toDouble.convert
  | .double => x.number?.map fun n => .double n.toDouble
  | .moment => match x with
    | text s => (lib.moment? (Text.trim s.toList)).map .moment
    | _ => none
  | .guid => match x with
    | text s => (lib.readGuid? (Text.trim s.toList)).map .guid
    | _ => none
  | .integer k => (x.number?.bind Number.toInt?).bind fun n => (Integer.ofInt? k n).map .integer

end Scalar

/-- A value as a value of a kind. A value that already is of the kind stays as it is. -/
def Value.convert? (v : Value) (k : Kind) (lib : TextLibrary := .standard) : Option Value :=
  match v with
  | .null => some k.zero
  | .scalar x => if x.kind = k then some v else (x.convert? k lib).map .scalar
  | .object _ | .carrier _ => none

namespace Schema

variable (s : Schema) (h : Heap)

/-- Converts a value to a kind. A fault shows the value, and never comes about if that has no end. -/
def convert (v : Value) (k : Kind) (lib : TextLibrary := .standard) : Except Halt Value :=
  match v.convert? k lib with
  | some w => .ok w
  | none => .error ((s.detailed h v lib).elim .exhausted fun t => .fault (.conversion t k.name))

/-- Whether a place of a type always holds a value, so that null cannot be stored there. -/
def excludesNull : Ty → Bool
  | .scalar k => k.isValueKind
  | .enum _ => true
  | t => s.isValueType t

/-- Whether a value that is not null may be stored where a type is expected. -/
def admits (t : Ty) (v : Value) : Bool :=
  match t with
  | .any => true
  | .scalar k => v.kind? == some k
  | .enum _ => v.kind?.isSome && v.kind? == s.underlying? t
  | .cls _ => v.object?.any fun o => s.isAssignable (classOf h o) t
  | .carrier => v.carrier?.isSome

/-- Checks that a value may be stored where a type is expected. -/
def cast (v : Value) (t : Ty) : Except Fault Value :=
  if t = .any then .ok v
  else if v.isNull then
    if s.excludesNull t then
      let name := s.name t
      .error (.nullReference s!"null cannot be stored as {name}")
    else .ok v
  else if s.admits h t v then .ok v
  else .error (.typeMismatch (s.name t) (s.typeName h v))

end Schema

end RecordForge
