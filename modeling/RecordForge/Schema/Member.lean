import RecordForge.Heap
import RecordForge.Schema.Routine

/-!
# Members of a class

What a class declares: fields, properties, constructors and statics. The bodies of members are
data. Besides a routine, an accessor or a constructor may be one of the built-in bodies: plain
access to a slot, the parts of a nullable wrapper, or what an implementation of an abstract class
was given by its construction plan.
-/

namespace RecordForge

/-! ## Members of wrappers -/

/-- Where the value of a wrapper is: in a field, or behind a property. -/
inductive Place where
  | field (slot : Nat)
  | property (readable writable : Bool)
deriving DecidableEq, Repr

/-- The member of a wrapper that holds its value. -/
structure ValueMember where
  name : String
  type : Ty
  place : Place
deriving DecidableEq, Repr

/-- A field can always be written. -/
def ValueMember.isWritable (m : ValueMember) : Bool :=
  match m.place with
  | .field _ => true
  | .property _ writable => writable

/-! ## Construction plans -/

/-- Which carrier a step passes on: the constructor's argument, or one made for the construction. -/
inductive CarrierSource where
  | argument
  | transient
deriving DecidableEq, Repr

/-- An argument of a planned constructor call: a literal, or a parameter read when the plan runs,
as a given type. -/
inductive Operand where
  | literal (v : Value)
  | parameter (index : Nat) (type : Ty)
deriving DecidableEq

/-- The number of a descriptor lookup in its world. -/
abbrev LookupId := Nat

/-- How the value of a field is made: by the descriptor of its type, or directly by a constructor
of a class, with operands or with a carrier. -/
inductive Source where
  | lookup (id : LookupId) (carrier : CarrierSource)
  | direct (target : Ty) (constructor : Nat) (args : List Operand)
  | withCarrier (target : Ty) (constructor : Nat) (carrier : CarrierSource)
deriving DecidableEq

structure BuildStep where
  property : String
  slot : Nat
  fieldType : Ty
  /-- The declared construction parameters of the property. -/
  parameters : Option (List Value)
  source : Source
deriving DecidableEq

structure InfoStep where
  field : String
  slot : Nat
  propertyType : Ty
  property : String
deriving DecidableEq

/-- The step of a plan that runs a constructor of the abstract class. -/
structure BaseCall where
  target : Ty
  constructor : Nat
  passesCarrier : Bool
deriving DecidableEq

/-- The body of a constructor of an implementation: build the fields, tell them their properties,
run the constructor of the abstract class. -/
structure ConstructionPlan where
  takesCarrier : Bool
  steps : List BuildStep
  infos : List InfoStep
  base : Option BaseCall
deriving DecidableEq

/-! ## Bodies -/

inductive Getter where
  | routine (body : Routine)
  | slot (slot : Nat)
  /-- Whether a nullable wrapper holds no value. -/
  | isAbsent
  /-- The value of a nullable wrapper, whose name a failure tells. -/
  | wrapped (type : String)
  /-- The value member of the wrapper in a slot, as a type if one is given. -/
  | through (slot : Nat) (member : ValueMember) (type : Option Ty)

inductive Setter where
  | routine (body : Routine)
  | slot (slot : Nat)
  | slotOf (slot : Nat) (type : Ty)
  /-- Stores the value of a nullable wrapper of a kind. -/
  | wrapped (kind : Kind)
  /-- Writes a value of a type to the value member of the wrapper in a slot. -/
  | through (slot : Nat) (member : ValueMember) (type : Ty)

inductive ConstructorBody where
  | routine (body : Routine)
  /-- Runs a constructor of the base without arguments, if there is one. -/
  | chain (base : Option (Ty × Nat))
  /-- Stores the argument as the value of a nullable wrapper of a kind. -/
  | wrapped (kind : Kind)
  | plan (p : ConstructionPlan)

inductive StaticBody where
  | routine (body : Routine)
  | blank

/-! ## Declarations -/

/-- A declared accessor: abstract, or with a body. -/
inductive Accessor (α : Type) where
  | abstract
  | body (b : α)

def Accessor.isAbstract {α : Type} : Accessor α → Bool
  | abstract => true
  | body _ => false

/-- What is attached to a property for mapping. -/
inductive Attribute where
  /-- The property is kept in a field of this type instead of the declared one. -/
  | mapType (type : Ty)
  /-- The construction parameters of the field's value. -/
  | parameters (values : List Value)
deriving DecidableEq

structure FieldDecl where
  name : String
  type : Ty
  isPublic : Bool
  /-- What the field holds before anything is stored in it. -/
  blank : Blank

structure PropertyDecl where
  name : String
  type : Ty
  isPublic : Bool := true
  getter : Option (Accessor Getter) := none
  setter : Option (Accessor Setter) := none
  attributes : List Attribute := []

namespace PropertyDecl

/-- Whether one of the accessors is declared without a body. -/
def isAbstract (p : PropertyDecl) : Bool :=
  p.getter.any Accessor.isAbstract || p.setter.any Accessor.isAbstract

def hasGetter (p : PropertyDecl) : Bool := p.getter.isSome

def hasSetter (p : PropertyDecl) : Bool := p.setter.isSome

end PropertyDecl

structure ConstructorDecl where
  params : List Ty
  isPublic : Bool
  body : ConstructorBody

/-- A static of a class, computed when it is first read. -/
structure StaticDecl where
  name : String
  type : Ty
  body : StaticBody

/-- A class. What it inherits is recorded with it: its bases from the nearest on, the fields of all
of them in front of its own, and the interfaces of all of them after its own. -/
structure ClassDecl where
  name : String
  bases : List ClassId
  isAbstract : Bool
  isValueType : Bool
  isSerializable : Bool
  interfaces : List String
  /-- The interfaces of the class and of its bases. -/
  allInterfaces : List String
  /-- All fields of an instance, inherited ones first. -/
  layout : List FieldDecl
  /-- The slot of the first field that the class itself declares. -/
  ownStart : Nat
  properties : List PropertyDecl
  constructors : List ConstructorDecl
  statics : List StaticDecl
  /-- The body that is told which property an instance belongs to. -/
  receiver : Option Routine
  /-- The slots of the objects that an implementation owns. -/
  owned : Option (List Nat)

/-- The public fields that a class itself declares, with their slots. -/
def ClassDecl.ownPublicFields (d : ClassDecl) : List (Nat × FieldDecl) :=
  ((d.layout.zipIdx.drop d.ownStart).filter fun (f, _) => f.isPublic).map fun (f, i) => (i, f)

structure EnumDecl where
  name : String
  underlying : Kind
  variants : List (String × Int)
deriving DecidableEq

end RecordForge
