import RecordForge.Schema.Member

/-!
# Schemas

A schema holds the declared classes and enumerations. It only ever grows, so a type means the same
in every later schema.

Questions about a class go through its *lineage*: the class itself, its base, the base of that,
and so on. Members are looked up from the most derived class on.
-/

namespace RecordForge

/-- The interface of nullable wrappers. -/
def nullableInterface : String := "INullable"

/-- The interface of every implementation of an abstract class. -/
def generatedInterface : String := "IMapGenerated"

/-- The interface of classes whose instances are told which property they belong to. -/
def receiverInterface : String := "IMapSetPropertyInfo"

/-- The declared classes and enumerations, by number. -/
structure Schema where
  classes : Array ClassDecl := #[]
  enums : Array EnumDecl := #[]

namespace Schema

variable (s : Schema)

/-! ## Types -/

def class? (c : ClassId) : Option ClassDecl := s.classes[c]?

def decl? : Ty → Option ClassDecl
  | .cls c => s.class? c
  | _ => none

def enum? : Ty → Option EnumDecl
  | .enum e => s.enums[e]?
  | _ => none

def name : Ty → String
  | .any => "object"
  | .carrier => "MapInitializingData"
  | .scalar k => k.name
  | .enum e => (s.enums[e]?).elim "" EnumDecl.name
  | .cls c => (s.class? c).elim "" ClassDecl.name

/-- The part of a name after its last point. -/
def shortOf (name : String) : String :=
  String.ofList (name.toList.reverse.takeWhile (· != '.')).reverse

def shortName (t : Ty) : String := shortOf (s.name t)

/-- The names of types, as a parameter list shows them. -/
def signature (ts : List Ty) : String :=
  ", ".intercalate (ts.map s.name)

def kind? : Ty → Option Kind
  | .scalar k => some k
  | _ => none

def underlying? (t : Ty) : Option Kind := (s.enum? t).map EnumDecl.underlying

def isClass (t : Ty) : Bool := (s.decl? t).isSome

def isEnum (t : Ty) : Bool := (s.enum? t).isSome

def isAbstract (t : Ty) : Bool := (s.decl? t).any ClassDecl.isAbstract

def isValueType (t : Ty) : Bool := (s.decl? t).any ClassDecl.isValueType

def isSerializable (t : Ty) : Bool := (s.decl? t).any ClassDecl.isSerializable

/-- Whether a type is a class whose instances are shared by reference. -/
def isReferenceClass (t : Ty) : Bool := (s.decl? t).any fun d => !d.isValueType

/-! ## Inheritance -/

/-- The proper bases of a type, nearest first. -/
def bases (t : Ty) : List Ty := (s.decl? t).elim [] fun d => d.bases.map Ty.cls

def base? (t : Ty) : Option Ty := (s.bases t).head?

def ancestors (t : Ty) : List Ty := t :: s.bases t

/-- The classes among a type and its bases, with their declarations. -/
def lineage (t : Ty) : List (Ty × ClassDecl) :=
  (s.ancestors t).filterMap fun a => (s.decl? a).map fun d => (a, d)

/-- Whether a type is properly below another. Everything but the root itself is below the root. -/
def isSubclass (t other : Ty) : Bool :=
  if other = .any then t != .any else (s.bases t).contains other

/-- Whether a value of a type can stand where another type is expected. -/
def isAssignable (t target : Ty) : Bool :=
  t == target || s.isSubclass t target

def implementsInterface (t : Ty) (interface : String) : Bool :=
  (s.decl? t).any fun d => d.allInterfaces.contains interface

/-! ## Fields -/

def fields (t : Ty) : List FieldDecl := (s.decl? t).elim [] ClassDecl.layout

def fieldSlot? (t : Ty) (name : String) : Option Nat :=
  (s.fields t).findIdx? fun f => f.name == name

/-- The public fields of a class: its own first, then those of each base. -/
def publicFields (t : Ty) : List (Nat × FieldDecl) :=
  (s.lineage t).flatMap fun (_, d) => d.ownPublicFields

/-- What a place of a type holds before anything is stored there. -/
def blank (t : Ty) : Blank :=
  match t with
  | .scalar k => k.zero?.elim .null .scalar
  | .enum _ => (s.underlying? t).elim .null fun k => k.zero?.elim .null .scalar
  | .cls c =>
    match s.class? c with
    | some d => if d.isValueType then .record c (d.layout.map FieldDecl.blank) else .null
    | none => .null
  | .any | .carrier => .null

/-! ## Properties -/

/-- The most derived declaration of a property, public or not, with the class that declares it. -/
def findProperty? (t : Ty) (name : String) : Option (Ty × PropertyDecl) :=
  (s.lineage t).findSome? fun (a, d) =>
    (d.properties.find? fun p => p.name == name).map fun p => (a, p)

/-- Adds a declaration unless one of its name is there. -/
def addProperty (found : List (Ty × PropertyDecl)) (entry : Ty × PropertyDecl) :
    List (Ty × PropertyDecl) :=
  if found.any fun q => q.2.name == entry.2.name then found else found ++ [entry]

/-- The public properties of a class: of each name the most derived public declaration, those of
derived classes first. -/
def publicProperties (t : Ty) : List (Ty × PropertyDecl) :=
  ((s.lineage t).flatMap fun (a, d) =>
    (d.properties.filter PropertyDecl.isPublic).map fun p => (a, p)).foldl addProperty []

/-! ## Constructors and statics -/

/-- The constructors that a class itself declares. -/
def constructors (t : Ty) : List ConstructorDecl := (s.decl? t).elim [] ClassDecl.constructors

/-- The constructor with exactly these parameter types, with its number. -/
def findConstructor? (t : Ty) (params : List Ty) : Option (Nat × ConstructorDecl) :=
  ((s.constructors t).zipIdx.find? fun (c, _) => c.params == params).map fun (c, i) => (i, c)

/-- The constructor without parameters, of any visibility. -/
def defaultConstructor? (t : Ty) : Option (Nat × ConstructorDecl) :=
  s.findConstructor? t []

def publicDefault? (t : Ty) : Option Nat :=
  ((s.defaultConstructor? t).filter fun (_, c) => c.isPublic).map Prod.fst

def static? (t : Ty) (name : String) : Option StaticDecl :=
  (s.decl? t).bind fun d => d.statics.find? fun f => f.name == name

def hasStatic (t : Ty) (name : String) : Bool := (s.static? t name).isSome

/-! ## What synthesis records -/

/-- The receiver of the nearest class that has one. -/
def receiver? (t : Ty) : Option Routine :=
  (s.lineage t).findSome? fun (_, d) => d.receiver

/-- The slots of owned objects recorded by the nearest class that records any. -/
def ownedSlots? (t : Ty) : Option (List Nat) :=
  (s.lineage t).findSome? fun (_, d) => d.owned

/-! ## Growth -/

def addClass (d : ClassDecl) : ClassId × Schema :=
  (s.classes.size, { s with classes := s.classes.push d })

def addEnum (d : EnumDecl) : EnumId × Schema :=
  (s.enums.size, { s with enums := s.enums.push d })

end Schema

end RecordForge
