import RecordForge.Synthesis.Property

/-!
# Implementations of abstract classes

The implementation of an abstract class is a class below it with a field for each of its abstract
public properties. Its fields follow those of the abstract class. It has two constructors: one
without arguments and one that takes a carrier. Each builds the fields, tells their values which
properties they belong to, and then runs a constructor of the abstract class.
-/

namespace RecordForge

def defaultIndex : Nat := 0

/-- The number of the constructor of an implementation that takes a carrier. -/
def factoryIndex : Nat := 1

/-! ## Steps in words -/

namespace CarrierSource

def describe : CarrierSource → String
  | argument => "init"
  | transient => "transient init"

end CarrierSource

namespace Operand

def describe (s : Schema) (h : Heap) : Operand → Option String
  | literal v => s.detailed h v
  | parameter index type => some (s!"params[{index}] as " ++ s.name type)

end Operand

namespace BuildStep

/-- The source of a field's value in words. -/
def describeSource (s : Schema) (h : Heap) (step : BuildStep) : Option String :=
  match step.source with
  | .lookup _ carrier =>
    some ("descriptor(" ++ s.name step.fieldType ++ ").create_instance(" ++ carrier.describe ++ ")")
  | .direct target _ args =>
    (args.mapM (Operand.describe s h)).map fun args =>
      "new " ++ s.name target ++ "(" ++ ", ".intercalate args ++ ")"
  | .withCarrier target _ carrier =>
    some ("new " ++ s.name target ++ "(" ++ carrier.describe ++ ")")

def describeParameters (s : Schema) (h : Heap) (step : BuildStep) : Option String :=
  match step.parameters with
  | none => some ""
  | some vs => (s.detailedList h vs).map (" with " ++ ·)

def describe (s : Schema) (h : Heap) (step : BuildStep) : Option String := do
  let source ← step.describeSource s h
  let parameters ← step.describeParameters s h
  return "_" ++ step.property ++ " = " ++ source ++ parameters

end BuildStep

namespace InfoStep

def describe (s : Schema) (i : InfoStep) : String :=
  i.field ++ ".SetInfo(" ++ s.name i.propertyType ++ " " ++ i.property ++ ", this)"

end InfoStep

namespace BaseCall

def describe (s : Schema) (b : BaseCall) : String :=
  let name := s.name b.target
  let number := b.constructor
  let argument := if b.passesCarrier then "init" else ""
  s!"base {name}::.ctor#{number}({argument})"

end BaseCall

namespace ConstructionPlan

/-- The plan in words, one line for each step. -/
def describe (s : Schema) (h : Heap) (p : ConstructionPlan) : Option (List String) :=
  (p.steps.mapM (BuildStep.describe s h)).map fun lines =>
    lines ++ (if p.infos.isEmpty then [] else ["InitPropertiesOf(this)"]) ++
      (p.base.map (BaseCall.describe s)).toList

end ConstructionPlan

namespace ForgedProperty

def describeGetter (s : Schema) (f : ForgedProperty) : String :=
  let field := "return this." ++ f.field.fieldName
  match f.field.member with
  | none => field
  | some m =>
    field ++ "." ++ m.name ++ (f.field.castType? s m).elim "" fun t => " as " ++ s.name t

def describeSetter? (f : ForgedProperty) : Option String :=
  match f.shape with
  | .omitted => none
  | .direct => some ("this." ++ f.field.fieldName ++ " = value")
  | .through m => some ("this." ++ f.field.fieldName ++ "." ++ m.name ++ " = value")

def report (s : Schema) (f : ForgedProperty) : PropertyReport where
  name := f.field.property.name
  type := s.name f.field.property.type
  field := f.field.fieldName
  wrapperMember := f.field.member.map ValueMember.name
  getter := f.describeGetter s
  setter := f.describeSetter?

end ForgedProperty

/-! ## The implementation -/

/-- The parts of an implementation before it is a class. -/
structure Implementation where
  type : Ty
  base : ClassDecl
  name : String
  properties : List ForgedProperty

namespace Implementation

variable (i : Implementation)

def plans : List FieldPlan := i.properties.filterMap ForgedProperty.plan

/-- The slots of the owned fields, in order. -/
def owned : List Nat :=
  i.properties.filterMap fun f => f.plan.map fun _ => f.field.slot

/-- The steps that tell owned objects their properties. -/
def infos : List InfoStep := i.plans.filterMap FieldPlan.info

/-- The call of the constructor of the abstract class without arguments. -/
def defaultBase? (s : Schema) : Option BaseCall :=
  (s.defaultConstructor? i.type).map fun (k, _) => ⟨i.type, k, false⟩

/-- The call of the constructor of the abstract class that takes a carrier, or else of the one
without arguments. -/
def factoryBase? (s : Schema) : Option BaseCall :=
  ((s.findConstructor? i.type [.carrier]).map fun (k, _) => ⟨i.type, k, true⟩).or
    (i.defaultBase? s)

def defaultPlan (s : Schema) : ConstructionPlan :=
  ⟨false, i.plans.map FieldPlan.default, i.infos, i.defaultBase? s⟩

def factoryPlan (s : Schema) : ConstructionPlan :=
  ⟨true, i.plans.filterMap FieldPlan.factory, i.infos, i.factoryBase? s⟩

def decl (s : Schema) : ClassDecl where
  name := i.name
  bases := s.ancestors i.type |>.filterMap fun
    | .cls c => some c
    | _ => none
  isAbstract := false
  isValueType := false
  isSerializable := i.base.isSerializable
  interfaces := [generatedInterface]
  allInterfaces := generatedInterface :: i.base.allInterfaces
  layout := i.base.layout ++ i.properties.map (ForgedProperty.fieldDecl s)
  ownStart := i.base.layout.length
  properties := i.properties.map (ForgedProperty.decl s)
  constructors := [
    { params := [], isPublic := true, body := .plan (i.defaultPlan s) },
    { params := [.carrier], isPublic := true, body := .plan (i.factoryPlan s) }]
  statics := []
  receiver := none
  owned := some i.owned

def parameters : List (String × List Value) :=
  i.properties.filterMap fun f =>
    f.field.parameters.map fun vs => (f.field.property.name, vs)

/-- What the implementation consists of; none if it takes no end to say so. -/
def report (s : Schema) (h : Heap) : Option Report := do
  let defaultConstructor ← (i.defaultPlan s).describe s h
  let factoryConstructor ← (i.factoryPlan s).describe s h
  return {
    typeName := i.name
    implements := s.name i.type
    isSerializable := i.base.isSerializable
    fields := i.properties.map fun f =>
      ⟨f.field.slot, f.field.fieldName, s.name f.field.fieldType⟩
    properties := i.properties.map (ForgedProperty.report s)
    defaultConstructor
    factoryConstructor
    initRoutine := i.infos.map (InfoStep.describe s)
    owned := i.properties.filterMap fun f => f.plan.map fun _ => f.field.fieldName }

/-- Makes the properties of the implementation of an abstract class. -/
def make (w : Workshop) (request : Request) (t : Ty) (d : ClassDecl) (s : Session) :
    Except RequestError (Implementation × Session) := do
  let abstracts := ((s.schema.publicProperties t).map Prod.snd).filter PropertyDecl.isAbstract
  let (properties, s) ← ForgedProperty.makeAll w request t abstracts d.layout.length s
  let name := d.name ++ "." ++ w.nameInfix ++ "." ++ Schema.shortOf d.name
  return (⟨t, d, name, properties⟩, s)

/-- The descriptor of the implementation, whose class is `product`. -/
def descriptor (w : Workshop) (report : Report) (product : Ty) : Descriptor where
  type := i.type
  product
  defaultConstructor := some defaultIndex
  factoryConstructor := some factoryIndex
  factoryTakesCarrier := true
  parameters := i.parameters
  report := some report
  listener := w.listener

/-- Adds the class of an implementation and its descriptor, with the report. -/
def finish (w : Workshop) (i : Implementation) (s : Session) :
    Except RequestError (DescriptorId × Session) :=
  match i.report s.schema w.heap with
  | none => .error .endless
  | some report =>
    let (product, s') := s.addClass (i.decl s.schema)
    .ok (s'.stage i.type (i.descriptor w report product))

end Implementation

end RecordForge
