import RecordForge.Scalar

/-!
# Types and values

A type is known by its identity: a built-in type by its kind, a class or an enumeration by its
number in the schema that declares it. Likewise a value that refers to an object or to a carrier
of construction parameters holds its number in the heap.
-/

namespace RecordForge

/-- The number of a class in its schema. -/
abbrev ClassId := Nat

/-- The number of an enumeration in its schema. -/
abbrev EnumId := Nat

/-- The number of an object in its heap. -/
abbrev ObjectId := Nat

/-- The number of a carrier in its heap. -/
abbrev CarrierId := Nat

inductive Ty where
  /-- The root: every other type is below it. -/
  | any
  /-- The type of carriers of construction parameters. -/
  | carrier
  | scalar (k : Kind)
  | enum (e : EnumId)
  | cls (c : ClassId)
deriving DecidableEq, Repr

/-- A value. Null is both the null reference and the mark of an absent value. -/
inductive Value where
  | null
  | scalar (s : Scalar)
  | object (o : ObjectId)
  | carrier (c : CarrierId)
deriving DecidableEq

namespace Value

def kind? : Value → Option Kind
  | scalar s => some s.kind
  | _ => none

def isNull : Value → Bool
  | null => true
  | _ => false

def object? : Value → Option ObjectId
  | object o => some o
  | _ => none

def carrier? : Value → Option CarrierId
  | carrier c => some c
  | _ => none

/-- The truth value in a value. -/
def bool? : Value → Option Bool
  | scalar (.bool b) => some b
  | _ => none

def text? : Value → Option String
  | scalar (.text s) => some s
  | _ => none

/-- The integer payload, if it is within the range of `i64`. -/
def asInt64? : Value → Option Int
  | scalar s => s.asInt64?
  | _ => none

/-- Whether a value means the same in every heap, so that a plan may keep it as a literal. -/
def isLiteral : Value → Bool
  | null | scalar _ => true
  | object _ | carrier _ => false

def ofText (s : String) : Value := scalar (.text s)

def ofBool (b : Bool) : Value := scalar (.bool b)

end Value

/-- The value that a place of a kind holds before anything is stored there. -/
def Kind.zero (k : Kind) : Value :=
  match k.zero? with
  | some s => .scalar s
  | none => .null

end RecordForge
