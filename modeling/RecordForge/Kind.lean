/-!
# Scalar kinds

The kinds of scalar values. The eight integer kinds form a type of their own, since all that tells
them apart is a range.
-/

namespace RecordForge

/-- The kinds of integers, by sign and width. -/
inductive IntegerKind where
  | i8 | i16 | i32 | i64 | u8 | u16 | u32 | u64
deriving DecidableEq, Repr

namespace IntegerKind

def all : List IntegerKind := [.i8, .i16, .i32, .i64, .u8, .u16, .u32, .u64]

/-- The name of a kind in diagnostics. -/
def name : IntegerKind → String
  | i8 => "i8" | i16 => "i16" | i32 => "i32" | i64 => "i64"
  | u8 => "u8" | u16 => "u16" | u32 => "u32" | u64 => "u64"

def least : IntegerKind → Int
  | i8 => -0x80 | i16 => -0x8000 | i32 => -0x80000000 | i64 => -0x8000000000000000
  | u8 | u16 | u32 | u64 => 0

def greatest : IntegerKind → Int
  | i8 => 0x7f | i16 => 0x7fff | i32 => 0x7fffffff | i64 => 0x7fffffffffffffff
  | u8 => 0xff | u16 => 0xffff | u32 => 0xffffffff | u64 => 0xffffffffffffffff

end IntegerKind

/-- The kinds of scalars. -/
inductive Kind where
  | bool
  | char
  | integer (k : IntegerKind)
  | single
  | double
  | text
  | moment
  | guid
deriving DecidableEq, Repr

namespace Kind

def all : List Kind :=
  [bool, char] ++ IntegerKind.all.map integer ++ [single, double, text, moment, guid]

/-- The name of a kind in diagnostics. -/
def name : Kind → String
  | bool => "bool"
  | char => "char"
  | integer k => k.name
  | single => "f32"
  | double => "f64"
  | text => "string"
  | moment => "datetime"
  | guid => "guid"

/-- Whether a value of this kind is always there. Text may be absent. -/
def isValueKind (k : Kind) : Bool :=
  k != text

def isIntegral : Kind → Bool
  | integer _ => true
  | _ => false

end Kind

end RecordForge
