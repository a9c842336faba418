import RecordForge.Schema.Basic

/-!
# Declaring classes

A draft lists the members of a class in the order of their declaration. `Schema.declare` accepts a
draft if it is well formed and adds the class; else it names the first offence, looking at the
class itself, then its fields, its properties and its constructors.

Own fields are appended to the fields of the base, so the slot of an inherited field is the same
in every class below.
-/

namespace RecordForge

/-- Why a draft is refused. Types and members are given by name. -/
inductive DraftError where
  | duplicateField (type field : String)
  | duplicateProperty (type property : String)
  | duplicateConstructor (type signature : String)
  /-- The base is not a class that can be inherited from, or the class is a value type. -/
  | invalidBase (type base : String)
  /-- A value type is abstract. -/
  | abstractValueType (type : String)
deriving DecidableEq, Repr

def DraftError.message : DraftError → String
  | duplicateField type field => s!"Duplicate field '{field}' in type '{type}'"
  | duplicateProperty type property => s!"Duplicate property '{property}' in type '{type}'"
  | duplicateConstructor type signature =>
    s!"Duplicate constructor ({signature}) in type '{type}'"
  | invalidBase type base => s!"Type '{type}' cannot extend '{base}'"
  | abstractValueType type =>
    s!"Invalid definition of '{type}': a value type cannot be abstract"

/-- A member as it is declared. -/
inductive MemberDraft where
  | field (name : String) (type : Ty) (isPublic : Bool)
  /-- A public property kept in a private field of its own. -/
  | auto (name : String) (type : Ty)
  | property (p : PropertyDecl)
  | constructor (c : ConstructorDecl)
  /-- A public constructor without parameters that runs the one of the base. -/
  | defaultConstructor
  | static (d : StaticDecl)
  /-- The body that is told which property an instance belongs to. -/
  | receiver (body : Routine)

/-- A class before it is checked. -/
structure ClassDraft where
  name : String
  base : Option Ty := none
  isAbstract : Bool := false
  isValueType : Bool := false
  isSerializable : Bool := false
  interfaces : List String := []
  members : List MemberDraft := []

/-- The name of the field that keeps a property. -/
def backingName (property : String) : String := "_" ++ property

namespace ClassDraft

/-- The fields that a draft declares: name, type and visibility. -/
def fields (d : ClassDraft) : List (String × Ty × Bool) :=
  d.members.filterMap fun
    | .field name type isPublic => some (name, type, isPublic)
    | .auto name type => some (backingName name, type, false)
    | _ => none

/-- The properties among members, when the next field has a given slot: each property that keeps
itself reads and writes the slot of its field. -/
def propertiesFrom (slot : Nat) : List MemberDraft → List PropertyDecl
  | [] => []
  | .property p :: ms => p :: propertiesFrom slot ms
  | .field .. :: ms => propertiesFrom (slot + 1) ms
  | .auto name type :: ms =>
    { name, type, getter := some (.body (.slot slot)), setter := some (.body (.slot slot)) } ::
      propertiesFrom (slot + 1) ms
  | _ :: ms => propertiesFrom slot ms

def constructors (s : Schema) (d : ClassDraft) : List ConstructorDecl :=
  let chain := d.base.bind fun b => (s.defaultConstructor? b).map fun (i, _) => (b, i)
  d.members.filterMap fun
    | .constructor c => some c
    | .defaultConstructor => some { params := [], isPublic := true, body := .chain chain }
    | _ => none

def statics (d : ClassDraft) : List StaticDecl :=
  d.members.filterMap fun
    | .static f => some f
    | _ => none

def receivers (d : ClassDraft) : List Routine :=
  d.members.filterMap fun
    | .receiver body => some body
    | _ => none

/-- The interfaces of a draft: those it names, and one for each receiver. -/
def ownInterfaces (d : ClassDraft) : List String :=
  d.interfaces ++ d.receivers.map fun _ => receiverInterface

end ClassDraft

/-- The first entry that equals an earlier one, or one of those `seen` before. -/
def firstRepeat {α : Type} [BEq α] (seen : List α) : List α → Option α
  | [] => none
  | x :: xs => if seen.contains x then some x else firstRepeat (x :: seen) xs

namespace Schema

/-- The first offence of a draft against the rules of its schema. -/
def offence? (s : Schema) (d : ClassDraft) : Option DraftError :=
  if d.isValueType && d.isAbstract then some (.abstractValueType d.name)
  else match d.base.filter fun b => !s.isReferenceClass b || d.isValueType with
  | some b => some (.invalidBase d.name (s.name b))
  | none =>
    let inherited := d.base.elim [] s.fields
    match firstRepeat (inherited.map FieldDecl.name) (d.fields.map Prod.fst) with
    | some f => some (.duplicateField d.name f)
    | none =>
      match firstRepeat []
          ((ClassDraft.propertiesFrom inherited.length d.members).map PropertyDecl.name) with
      | some p => some (.duplicateProperty d.name p)
      | none =>
        (firstRepeat [] ((d.constructors s).map ConstructorDecl.params)).map fun params =>
          .duplicateConstructor d.name (s.signature params)

/-- The class that a draft stands for. -/
def finish (s : Schema) (d : ClassDraft) : ClassDecl :=
  let base := d.base.bind s.decl?
  let inherited := base.elim [] ClassDecl.layout
  let interfaces := d.ownInterfaces
  { name := d.name
    bases := match d.base with
      | some (.cls b) => b :: (s.class? b).elim [] ClassDecl.bases
      | _ => []
    isAbstract := d.isAbstract
    isValueType := d.isValueType
    isSerializable := d.isSerializable
    interfaces
    allInterfaces := interfaces ++ base.elim [] ClassDecl.allInterfaces
    layout := inherited ++ d.fields.map fun (name, type, isPublic) =>
      { name, type, isPublic, blank := s.blank type }
    ownStart := inherited.length
    properties := ClassDraft.propertiesFrom inherited.length d.members
    constructors := d.constructors s
    statics := d.statics
    receiver := d.receivers.getLast?
    owned := none }

/-- Adds the class of a draft, if the draft is well formed. -/
def declare (s : Schema) (d : ClassDraft) : Except DraftError (ClassId × Schema) :=
  match s.offence? d with
  | some e => .error e
  | none => .ok (s.addClass (s.finish d))

end Schema

end RecordForge
