/-!
# Faults

What can go wrong while constructors, accessors and conversions run, by cause. The wording of each
is in `Fault.message`. A run halts by a fault, by a panic, or because it is nested too deep.
-/

namespace RecordForge

/-- A failure of a running body or of an access to an object. Types are given by name. -/
inductive Fault where
  | typeMismatch (expected got : String)
  | argumentCount (constructor : String) (given : Nat)
  | nullReference (what : String)
  /-- A value that cannot be converted; it is given as a diagnostic shows it. -/
  | conversion (value target : String)
  | missingMember (type member : String)
  /-- An accessor that is declared without a body. -/
  | abstractMember (type member : String)
  /-- An attempt to create an instance of a type that has none. -/
  | notInstantiable (type : String)
  | fieldIndex (type : String) (index : Nat)
  /-- The value of a wrapper that holds none. -/
  | nullValue (type : String)
  /-- A failure that a body raised itself. -/
  | thrown (message : String)
  /-- A body that was cut off by a panic. -/
  | panicked (message : String)
deriving DecidableEq, Repr

namespace Fault

def message : Fault → String
  | typeMismatch expected got => s!"Type mismatch: expected {expected}, got {got}"
  | argumentCount constructor given =>
    s!"Type mismatch: expected {constructor}, got {given} argument(s)"
  | nullReference what => s!"Null reference: {what}"
  | conversion value target => s!"Cannot convert {value} to {target}"
  | missingMember type member => s!"Type '{type}' has no member '{member}'"
  | abstractMember type member => s!"Member '{member}' of type '{type}' is abstract"
  | notInstantiable type => s!"Cannot create an instance of '{type}'"
  | fieldIndex type index => s!"Field index {index} out of range for type '{type}'"
  | nullValue type => s!"Data is Null: {type}"
  | thrown message => message
  | panicked message => s!"Panicked: {message}"

end Fault

inductive Halt where
  | fault (f : Fault)
  /-- A panic; the reason need not be text. -/
  | panic (reason : Option String)
  /-- Calls were nested too deep. -/
  | exhausted
deriving DecidableEq, Repr

end RecordForge
