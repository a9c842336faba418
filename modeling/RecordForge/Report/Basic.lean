/-!
# Reports

What an implementation of an abstract class consists of, in words: its fields, its accessors, and
one line for each step of its constructors.
-/

namespace RecordForge

/-- A field that an implementation adds. -/
structure FieldReport where
  slot : Nat
  name : String
  type : String
deriving DecidableEq, Repr

/-- A property that an implementation provides. -/
structure PropertyReport where
  name : String
  type : String
  /-- The field that keeps the property. -/
  field : String
  /-- The member of the field's value that holds the property's value. -/
  wrapperMember : Option String
  getter : String
  setter : Option String
deriving DecidableEq, Repr

/-- An implementation of an abstract class. -/
structure Report where
  typeName : String
  implements : String
  isSerializable : Bool
  fields : List FieldReport
  properties : List PropertyReport
  defaultConstructor : List String
  factoryConstructor : List String
  /-- The steps that tell owned objects their properties. -/
  initRoutine : List String
  owned : List String
deriving DecidableEq, Repr

end RecordForge
