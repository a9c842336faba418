import RecordForge.Kind
import RecordForge.Binary.Text
import RecordForge.TextLibrary

/-!
# Scalars

The values of each kind and their text. An integer carries its kind and the proof that it is
within the kind's range.
-/

namespace RecordForge

/-- An integer within the range of a kind. -/
structure Integer where
  kind : IntegerKind
  val : Int
  least_le : kind.least ≤ val
  le_greatest : val ≤ kind.greatest
deriving DecidableEq

namespace Integer

/-- The integer of a kind, if it is in range. -/
def ofInt? (k : IntegerKind) (n : Int) : Option Integer :=
  if h₁ : k.least ≤ n then
    if h₂ : n ≤ k.greatest then some ⟨k, n, h₁, h₂⟩ else none
  else none

def zero (k : IntegerKind) : Integer :=
  ⟨k, 0, by cases k <;> decide, by cases k <;> decide⟩

/-- An integer as one of the kind `i32`; beyond the range of that kind it becomes zero. -/
def ofInt32 (n : Int) : Integer :=
  (ofInt? .i32 n).getD (zero .i32)

/-- An integer is of a kind exactly if it is within the range. -/
theorem ofInt?_eq_some_iff {k : IntegerKind} {n : Int} :
    (∃ i, ofInt? k n = some i) ↔ k.least ≤ n ∧ n ≤ k.greatest := by
  unfold ofInt?
  by_cases h₁ : k.least ≤ n <;> by_cases h₂ : n ≤ k.greatest <;> simp [h₁, h₂]

/-- An integer is found again by its value. -/
theorem ofInt?_val (i : Integer) : ofInt? i.kind i.val = some i := by
  simp [ofInt?, i.least_le, i.le_greatest]

end Integer

/-- A value of one of the kinds. -/
inductive Scalar where
  | bool (b : Bool)
  | char (c : Char)
  | integer (n : Integer)
  | single (x : Single)
  | double (x : Double)
  | text (s : String)
  | moment (m : Moment)
  | guid (g : Guid)
deriving DecidableEq

namespace Scalar

def kind : Scalar → Kind
  | bool _ => .bool
  | char _ => .char
  | integer n => .integer n.kind
  | single _ => .single
  | double _ => .double
  | text _ => .text
  | moment _ => .moment
  | guid _ => .guid

/-- Equality of scalars: of one kind and equal in it. Floating-point numbers compare as numbers. -/
def same : Scalar → Scalar → Bool
  | single x, single y => x.same y
  | double x, double y => x.same y
  | a, b => a == b

def toText (x : Scalar) (lib : TextLibrary := .standard) : String :=
  match x with
  | bool b => if b then "True" else "False"
  | char c => String.ofList [c]
  | integer n => String.ofList (Decimal.signed n.val)
  | single x => x.toText
  | double x => x.toText
  | text s => s
  | moment m => String.ofList (lib.writeMoment m)
  | guid g => String.ofList (lib.writeGuid g)

/-- The integer payload, if it is within the range of `i64`. -/
def asInt64? : Scalar → Option Int
  | integer n => (Integer.ofInt? .i64 n.val).map Integer.val
  | _ => none

end Scalar

/-- The scalar that a place of a kind holds before anything is stored there; none for text. -/
def Kind.zero? : Kind → Option Scalar
  | bool => some (.bool false)
  | char => some (.char '\x00')
  | integer k => some (.integer (.zero k))
  | single => some (.single .zero)
  | double => some (.double .zero)
  | text => none
  | moment => some (.moment .epoch)
  | guid => some (.guid .empty)

end RecordForge
