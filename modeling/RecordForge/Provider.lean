import RecordForge.Schema.Basic

/-!
# Providers

A provider knows the mapping: which classes are mapped, and for each property of an abstract class
the types that may replace its declared one and its construction parameters. Its answers depend on
what is asked alone, never on what was asked before.
-/

namespace RecordForge

/-- What is known about the mapping. -/
structure Provider where
  isMapped : Ty → ClassDecl → Bool
  /-- The types that may replace the type of a property of a class, in order of preference. -/
  overrides : Ty → PropertyDecl → List Ty
  /-- The construction parameters of a property of a class. -/
  parameters : Ty → PropertyDecl → Option (List Value)

/-- The types attached to a property. -/
def PropertyDecl.mapTypes (p : PropertyDecl) : List Ty :=
  p.attributes.filterMap fun
    | .mapType t => some t
    | .parameters _ => none

def PropertyDecl.parameters? (p : PropertyDecl) : Option (List Value) :=
  p.attributes.findSome? fun
    | .mapType _ => none
    | .parameters vs => some vs

namespace Provider

/-- Reads what is attached to the properties. Every class that is shared by reference and is no
nullable wrapper is mapped. -/
def attributes : Provider where
  isMapped _ d := !d.isValueType && !d.allInterfaces.contains nullableInterface
  overrides _ p := p.mapTypes
  parameters _ p := p.parameters?

/-- Exceptions from a provider: classes that are or are not mapped, and by the name of a property
its replacement types, where none stands for the class itself, and its parameters. -/
structure Exceptions where
  mapped : List Ty := []
  unmapped : List Ty := []
  overrides : List (String × List (Option Ty)) := []
  parameters : List (String × List Value) := []

/-- A provider with exceptions. A class that is excepted both ways is not mapped. -/
def adjust (p : Provider) (e : Exceptions) : Provider where
  isMapped t d := !e.unmapped.contains t && (e.mapped.contains t || p.isMapped t d)
  overrides owner q :=
    match e.overrides.lookup q.name with
    | some ts => ts.map fun t => t.getD owner
    | none => p.overrides owner q
  parameters owner q := (e.parameters.lookup q.name).or (p.parameters owner q)

end Provider

end RecordForge
