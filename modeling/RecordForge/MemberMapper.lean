import RecordForge.Nullable
import RecordForge.Synthesis.Session

/-!
# Member mappers

A member mapper reads and writes one field or property of a class on behalf of a record that maps
to it. A nullable wrapper is read as its value, or as null, and written from a value or from null.
Only members of a scalar or enumeration type and nullable wrappers can be written.

*Hooks* change values on their way out of and into an object.
-/

namespace RecordForge

/-- Changes to values on their way through a mapper. -/
structure Hooks where
  outward : Heap → Value → Value := fun _ v => v
  inward : Heap → Value → Value := fun _ v => v
  /-- Whether an observer is told of each value. -/
  isTraced : Bool := false

namespace Hooks

/-- Replaces each value that equals an entry of a table; the first entry counts. -/
def replace (table : List (Value × Value)) (h : Heap) (v : Value) : Value :=
  (table.find? fun p => h.same p.1 v).elim v Prod.snd

end Hooks

inductive MemberKind where
  | field
  | property
deriving DecidableEq, Repr

/-- A member of a class with the directions in which it is to be mapped. -/
structure MemberMapper.Request where
  objectType : Ty
  member : String
  kind : MemberKind
  reads : Bool := true
  writes : Bool := true
deriving DecidableEq, Repr

inductive MemberAccess where
  | field (slot : Nat)
  | property
deriving DecidableEq, Repr

/-- How a member is read: from instances of a class, and whether the value read is a wrapper that
may be null, or that has a value. -/
structure MemberReader where
  declaring : Ty
  hasAbsence : Bool
  hasValue : Bool
deriving DecidableEq, Repr

inductive MemberWriter where
  | scalar (k : Kind)
  /-- As a wrapper of a type, made by a constructor from a value of a kind. -/
  | nullable (k : Kind) (constructor : Nat) (wrapper : Ty)
deriving DecidableEq, Repr

/-- A reader and a writer of one member. -/
structure MemberMapper where
  objectType : Ty
  member : String
  memberType : Ty
  access : MemberAccess
  reader : Option MemberReader
  writer : Option MemberWriter
  hooks : Hooks

namespace MemberMapper

def canRead (m : MemberMapper) : Bool := m.reader.isSome

def canWrite (m : MemberMapper) : Bool := m.writer.isSome

/-- What is known of a member before its mapper is made. -/
structure Member where
  type : Ty
  access : MemberAccess
  /-- The class whose instances can be read, if the member can be read. -/
  readable : Option Ty
  isWritable : Bool

/-- The class whose instances a property can be read from: the class that declares it, or, where a
class redeclares a property of its abstract base, the class from which that base has it. -/
def readingType (s : Schema) (t declaring : Ty) (name : String) : Ty :=
  if declaring = t then
    let inherited := ((s.base? t).filter s.isAbstract).bind fun b =>
      (s.findProperty? b name).filter fun (_, p) => p.hasGetter
    inherited.elim declaring Prod.fst
  else declaring

/-- Finds the member that a request names. -/
def member? (s : Schema) (r : Request) : Option Member :=
  match r.kind with
  | .field => do
    let slot ← s.fieldSlot? r.objectType r.member
    let f ← (s.fields r.objectType)[slot]?
    return ⟨f.type, .field slot, some r.objectType, true⟩
  | .property => do
    let (declaring, p) ← s.findProperty? r.objectType r.member
    let readable :=
      if p.hasGetter then some (readingType s r.objectType declaring r.member) else none
    return ⟨p.type, .property, readable, p.hasSetter⟩

/-- How a member of a nullable type is written: its value is of a kind, and there is a constructor
that takes it. -/
def nullableWriter (s : Schema) (t : Ty) : Except RequestError (Option MemberWriter) :=
  match s.findProperty? t valueName with
  | none => .error (.missingMember (s.name t) valueName)
  | some (_, p) =>
    match Schema.kind? p.type, s.findConstructor? t [p.type] with
    | some k, some (i, _) => .ok (some (.nullable k i t))
    | _, _ => .error (.missingConstructor (s.name t) (s.signature [p.type]))

def writerFor (s : Schema) (t : Ty) : Except RequestError (Option MemberWriter) :=
  match (Schema.kind? t).or (s.underlying? t) with
  | some k => .ok (some (.scalar k))
  | none => if s.isNullable t then nullableWriter s t else .ok none

def make (s : Schema) (hooks : Hooks) (r : Request) : Except RequestError MemberMapper :=
  match member? s r with
  | none => .error (.missingMember (s.name r.objectType) r.member)
  | some m => do
    let reader :=
      if r.reads then m.readable.map fun declaring =>
        ⟨declaring, (s.findProperty? m.type Nullable.absenceName).isSome,
          (s.findProperty? m.type valueName).isSome⟩
      else none
    let writer ← if r.writes && m.isWritable then writerFor s m.type else pure none
    return ⟨r.objectType, r.member, m.type, m.access, reader, writer, hooks⟩

def detailed (s : Schema) (m : MemberMapper) : String :=
  "MemberMapper \x7b object_type: " ++ s.detailedType m.objectType ++
    ", member_name: " ++ Text.quote m.member ++ ", member_type: " ++ s.detailedType m.memberType ++
    ", can_get: " ++ detailedBool m.canRead ++ ", can_set: " ++ detailedBool m.canWrite ++ " \x7d"

end MemberMapper

end RecordForge
