import RecordForge.Synthesis.Session
import RecordForge.ValueMember

/-!
# The field of a property

For each abstract property of a class, its implementation has a field. The field has the declared
type of the property, or the first of the replacement types whose value member fits that type. In
the second case the property is read and written through that member.

A field whose type is a mapped class that is shared by reference is *owned*: both constructors of
the implementation build its value.

* If the type is abstract, its descriptor is asked when the constructor runs. Its implementation is
  made now, so a type that cannot be implemented is refused at once.
* If it is not, a constructor that matches the construction parameters is preferred to one that
  takes a carrier, and that to one without parameters.

Where that leaves open what the default constructor does, it runs the public constructor without
parameters of the class that is to be built.
-/

namespace RecordForge

/-- A property with the field that is to keep it. -/
structure PropertyField where
  owner : Ty
  property : PropertyDecl
  fieldType : Ty
  /-- The member of the field's value that holds the property's value. -/
  member : Option ValueMember
  parameters : Option (List Value)
  slot : Nat

namespace PropertyField

def fieldName (f : PropertyField) : String := "_" ++ f.property.name

/-- The field of a property at a slot. -/
def choose (w : Workshop) (s : Schema) (owner : Ty) (p : PropertyDecl) (slot : Nat) :
    Except RequestError PropertyField :=
  let candidates := w.provider.overrides owner p
  let parameters := w.provider.parameters owner p
  match candidates.findSome? fun t => (s.valueMember? t p.type).map fun m => (t, m) with
  | some (t, m) => .ok ⟨owner, p, t, some m, parameters, slot⟩
  | none =>
    match candidates.getLast? with
    | some t => .error (.missingValueMember (s.shortName t) p.name (s.shortName owner))
    | none => .ok ⟨owner, p, p.type, none, parameters, slot⟩

def step (f : PropertyField) (source : Source) : BuildStep :=
  ⟨f.property.name, f.slot, f.fieldType, f.parameters, source⟩

end PropertyField

/-- How the field of a property is built by the two constructors of an implementation, and the step
that tells its value the property. -/
structure FieldPlan where
  default : BuildStep
  factory : Option BuildStep
  info : Option InfoStep
deriving DecidableEq

namespace FieldPlan

/-- An argument for a construction parameter: kept as it is if it means the same in every heap. -/
def operand (h : Heap) (index : Nat) (v : Value) : Operand :=
  if v.isLiteral then .literal v else .parameter index (Schema.typeOf h v)

/-- The constructor that takes values of exactly the types of the construction parameters, with its
arguments. -/
def matching? (h : Heap) (s : Schema) (t : Ty) (parameters : List Value) :
    Option (Nat × List Operand) :=
  (s.findConstructor? t (parameters.map (Schema.typeOf h))).map fun (i, _) =>
    (i, parameters.zipIdx.map fun (v, index) => operand h index v)

/-- The sources of the value of a field whose type is not abstract: for the default constructor, if
the parameters decide it, and for the factory constructor. -/
def sources (h : Heap) (s : Schema) (t : Ty) (parameters : Option (List Value)) :
    Option Source × Option Source :=
  match parameters.bind (matching? h s t) with
  | some (i, args) => (some (.direct t i args), some (.direct t i args))
  | none =>
    match s.findConstructor? t [.carrier] with
    | some (i, _) =>
      (parameters.map fun _ => .withCarrier t i .transient, some (.withCarrier t i .argument))
    | none => (none, (s.defaultConstructor? t).map fun (i, _) => .direct t i [])

/-- Running the public constructor without parameters of a class, for the field of a property. -/
def fallback (s : Schema) (f : PropertyField) (target : Ty) : Except RequestError Source :=
  match s.publicDefault? target with
  | some i => .ok (.direct target i [])
  | none => .error (.missingDefaultConstructor (s.shortName f.fieldType))

/-- The step that tells the value of a field its property, if the field's type asks for it. -/
def info? (s : Schema) (f : PropertyField) : Option InfoStep :=
  if s.implementsInterface f.fieldType receiverInterface then
    some ⟨f.fieldName, f.slot, f.property.type, f.property.name⟩
  else none

/-- The plan of a field whose type is abstract. -/
def ofAbstract (w : Workshop) (request : Request) (f : PropertyField) (s : Session) :
    Except RequestError (FieldPlan × Session) := do
  let (nested, s) ← request f.fieldType s
  let (lookup, s) := s.addLookup ⟨f.fieldType, w.registry, none⟩
  let target := (s.descriptors[nested]?).elim f.fieldType Descriptor.product
  let default ← match f.parameters with
    | some _ => pure (.lookup lookup .transient)
    | none => fallback s.schema f target
  return (⟨f.step default, some (f.step (.lookup lookup .argument)), info? s.schema f⟩, s)

/-- The plan of a field whose type is not abstract. -/
def ofConcrete (w : Workshop) (f : PropertyField) (s : Schema) : Except RequestError FieldPlan := do
  let (default, factory) := sources w.heap s f.fieldType f.parameters
  let default ← match default with
    | some source => pure source
    | none => fallback s f f.fieldType
  return ⟨f.step default, factory.map f.step, info? s f⟩

/-- The plan of a field, if the field is owned. -/
def make (w : Workshop) (request : Request) (f : PropertyField) (s : Session) :
    Except RequestError (Option FieldPlan × Session) :=
  match s.schema.decl? f.fieldType with
  | none => .ok (none, s)
  | some d =>
    if d.isValueType || !w.provider.isMapped f.fieldType d then .ok (none, s)
    else if d.isAbstract then do
      let (plan, s) ← ofAbstract w request f s
      return (some plan, s)
    else do
      let plan ← ofConcrete w f s.schema
      return (some plan, s)

end FieldPlan

/-- How a property with a field can be written. -/
inductive SetterShape where
  | omitted
  | direct
  | through (m : ValueMember)
deriving DecidableEq

namespace PropertyField

/-- How the property can be written. A member that is read-only is refused if the property has a
setter. -/
def setterShape (s : Schema) (f : PropertyField) : Except RequestError SetterShape :=
  match f.member with
  | none => .ok .direct
  | some m =>
    if m.isWritable then .ok (.through m)
    else if f.property.hasSetter then
      .error (.readOnlyValueMember (s.shortName f.fieldType) m.name f.property.name
        (s.shortName f.owner))
    else .ok .omitted

/-- The type that a value read through a member is checked against: that of the property, unless
the member has it already or the property is an enumeration. -/
def castType? (s : Schema) (f : PropertyField) (m : ValueMember) : Option Ty :=
  if m.type != f.property.type && !s.isEnum f.property.type then some f.property.type else none

def getter (s : Schema) (f : PropertyField) : Getter :=
  match f.member with
  | none => .slot f.slot
  | some m => .through f.slot m (f.castType? s m)

def setter? (f : PropertyField) : SetterShape → Option Setter
  | .omitted => none
  | .direct => some (.slotOf f.slot f.property.type)
  | .through m => some (.through f.slot m f.property.type)

end PropertyField

/-- A property of an implementation, with its field and how the field is built. -/
structure ForgedProperty where
  field : PropertyField
  plan : Option FieldPlan
  shape : SetterShape

namespace ForgedProperty

def make (w : Workshop) (request : Request) (owner : Ty) (p : PropertyDecl) (slot : Nat)
    (s : Session) : Except RequestError (ForgedProperty × Session) := do
  let field ← PropertyField.choose w s.schema owner p slot
  let (plan, s) ← FieldPlan.make w request field s
  let shape ← field.setterShape s.schema
  return (⟨field, plan, shape⟩, s)

/-- Makes properties with fields from a slot on. -/
def makeAll (w : Workshop) (request : Request) (owner : Ty) :
    List PropertyDecl → (slot : Nat) → Session → Except RequestError (List ForgedProperty × Session)
  | [], _, s => .ok ([], s)
  | p :: ps, slot, s => do
    let (f, s) ← make w request owner p slot s
    let (fs, s) ← makeAll w request owner ps (slot + 1) s
    return (f :: fs, s)

def decl (s : Schema) (f : ForgedProperty) : PropertyDecl :=
  { f.field.property with
    getter := some (.body (f.field.getter s))
    setter := (f.field.setter? f.shape).map .body }

def fieldDecl (s : Schema) (f : ForgedProperty) : FieldDecl :=
  ⟨f.field.fieldName, f.field.fieldType, false, s.blank f.field.fieldType⟩

end ForgedProperty

end RecordForge
