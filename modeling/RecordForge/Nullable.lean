import RecordForge.Schema.Draft
import RecordForge.ValueMember

/-!
# Nullable wrappers

A nullable wrapper of a kind is a value type with two private slots, for the value and for whether
there is one. It has the properties `IsNull` and `Value`, a constructor that takes the value, one
without arguments, and the static `Null`. A blank wrapper holds no value, so a place for a wrapper
never holds a null reference.
-/

namespace RecordForge

namespace Nullable

def absenceName : String := "IsNull"

/-- The name of the static that holds no value. -/
def sentinelName : String := "Null"

def valueSlot : Nat := 0

/-- The slot that tells whether there is a value. -/
def presenceSlot : Nat := 1

/-- The wrapper of a kind; with `settable` its value can be written as a property. -/
def draft (name : String) (k : Kind) (settable : Bool) : ClassDraft where
  name
  isValueType := true
  interfaces := [nullableInterface]
  members := [
    .field "m_value" (.scalar k) false,
    .field "m_hasValue" (.scalar .bool) false,
    .property { name := absenceName, type := .scalar .bool, getter := some (.body .isAbsent) },
    .property {
      name := valueName, type := .scalar k, getter := some (.body (.wrapped name))
      setter := if settable then some (.body (.wrapped k)) else none },
    .constructor { params := [.scalar k], isPublic := true, body := .wrapped k },
    .constructor { params := [], isPublic := true, body := .chain none },
    .static { name := sentinelName, type := .any, body := .blank }]

end Nullable

/-- Whether a type has the shape of a nullable wrapper. -/
def Schema.isNullable (s : Schema) (t : Ty) : Bool :=
  s.implementsInterface t nullableInterface && (s.findProperty? t valueName).isSome &&
    s.hasStatic t Nullable.sentinelName

end RecordForge
