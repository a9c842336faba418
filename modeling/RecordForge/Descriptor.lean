import RecordForge.Schema.Basic
import RecordForge.Report.File
import RecordForge.Diagnostics
import RecordForge.Fault

/-!
# Descriptors

A descriptor creates the instances of a mapped class: through its implementation if the class is
abstract, directly if it is not. It has up to two operations, one without arguments and one that is
given a carrier.

A *lookup* is what a construction plan knows of the descriptor of a field type: the type, the
registry to ask, and the answer as soon as there is one.
-/

namespace RecordForge

abbrev DescriptorId := Nat

abbrev RegistryId := Nat

/-- Who is told of a failed creation: an observer, or the log. -/
inductive Listener where
  | observer
  | log
deriving DecidableEq, Repr

/-- A mapped class with its ways to create instances. -/
structure Descriptor where
  type : Ty
  /-- The class of the instances, whose constructors are run. -/
  product : Ty
  defaultConstructor : Option Nat
  factoryConstructor : Option Nat
  /-- Whether the factory constructor is given the carrier. -/
  factoryTakesCarrier : Bool
  /-- The construction parameters of properties, by name. -/
  parameters : List (String × List Value)
  /-- What the implementation consists of, if the descriptor has one of its own. -/
  report : Option Report
  listener : Listener
deriving DecidableEq

/-- What came of a creation. -/
inductive Creation where
  | created (o : ObjectId)
  | failed (f : Fault)
  | unavailable
deriving DecidableEq, Repr

def Creation.object? : Creation → Option ObjectId
  | created o => some o
  | _ => none

namespace Descriptor

/-- The descriptor of a class that can be instantiated itself: its public constructors without
arguments and with a carrier, the first also in place of the second. -/
def concrete (s : Schema) (t : Ty) (listener : Listener) : Descriptor :=
  let plain := s.publicDefault? t
  let factory := ((s.findConstructor? t [.carrier]).filter fun (_, c) => c.isPublic).map Prod.fst
  { type := t
    product := t
    defaultConstructor := plain
    factoryConstructor := factory.or plain
    factoryTakesCarrier := factory.isSome
    parameters := []
    report := none
    listener }

/-- Whether the operation without arguments is there. -/
def canCreate (d : Descriptor) : Bool := d.defaultConstructor.isSome

/-- Whether the operation that is given a carrier is there. -/
def canCreateWith (d : Descriptor) : Bool := d.factoryConstructor.isSome

/-- Whether the class has an implementation of its own. -/
def isSynthesized (d : Descriptor) : Bool := d.report.isSome

def parametersOf? (d : Descriptor) (property : String) : Option (List Value) :=
  d.parameters.lookup property

/-- The name and the content of the report file, if there is a report. -/
def reportFile? (s : Schema) (d : Descriptor) : Option (String × String) :=
  d.report.map fun r =>
    (r.fileName, r.fileText (s.name d.type) (s.name d.product) d.canCreate d.canCreateWith)

def detailed (s : Schema) (d : Descriptor) : String :=
  "Descriptor \x7b original: " ++ s.detailedType d.type ++
    ", mapped: " ++ s.detailedType d.product ++
    ", default_ctor: " ++ detailedOption (d.defaultConstructor.map toString) ++
    ", factory_ctor: " ++ detailedOption (d.factoryConstructor.map toString) ++
    ", factory_takes_init: " ++ detailedBool d.factoryTakesCarrier ++ ", .. \x7d"

end Descriptor

/-- A descriptor that is found when it is first needed. -/
structure Lookup where
  fieldType : Ty
  registry : RegistryId
  found : Option DescriptorId
deriving DecidableEq

end RecordForge
