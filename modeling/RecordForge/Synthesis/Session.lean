import RecordForge.Descriptor
import RecordForge.Provider

/-!
# Sessions

One request to a registry may have to make several implementations: those of the abstract classes
that the fields of the requested one have. A session carries what has been made so far. Its schema,
descriptors and lookups extend those at the beginning of the request; nothing outside the session
sees them before the whole request has succeeded.
-/

namespace RecordForge

/-- Why a request has no answer. Types and members are given by name. -/
inductive RequestError where
  /-- No type that may replace a property's has a member for its value. -/
  | missingValueMember (fieldType property owner : String)
  | missingDefaultConstructor (type : String)
  /-- The value of a wrapper cannot be written, but the property can. -/
  | readOnlyValueMember (wrapper member property owner : String)
  | missingConstructor (type signature : String)
  | missingMember (type member : String)
  | notAClass (type : String)
  | notMapped (type : String)
  /-- An implementation would need itself to be made. -/
  | cyclicSynthesis (type : String)
  /-- The report of an implementation has no end, and so the request has none. -/
  | endless
deriving DecidableEq, Repr

/-- The wording of a refusal. A request without an end is none. -/
def RequestError.message? : RequestError → Option String
  | missingValueMember fieldType property owner => some <|
    s!"The '{fieldType}' type does not have appropriate setter or getter member. " ++
      s!"See '{property}' member of '{owner}' type."
  | missingDefaultConstructor type =>
    some s!"The '{type}' type has to have public default constructor."
  | readOnlyValueMember wrapper member property owner => some <|
    s!"The '{member}' member of '{wrapper}' type is read-only. " ++
      s!"See '{property}' member of '{owner}' type."
  | missingConstructor type signature =>
    some s!"The '{type}' type has to have a ({signature}) constructor."
  | missingMember type member => some s!"The '{type}' type does not have '{member}' member."
  | notAClass type => some s!"The '{type}' type is not a class."
  | notMapped type => some s!"The '{type}' type is not mapped."
  | cyclicSynthesis type =>
    some s!"The '{type}' type requires its own descriptor while being synthesized."
  | endless => none

/-- What one request has made so far. -/
structure Session where
  schema : Schema
  descriptors : Array Descriptor
  lookups : Array Lookup
  /-- The descriptors made, by type, in the order in which they were finished. -/
  staged : List (Ty × DescriptorId) := []

namespace Session

/-- Adds a lookup that has found nothing yet. -/
def addLookup (s : Session) (l : Lookup) : LookupId × Session :=
  (s.lookups.size, { s with lookups := s.lookups.push l })

def stage (s : Session) (t : Ty) (d : Descriptor) : DescriptorId × Session :=
  (s.descriptors.size,
    { s with
      descriptors := s.descriptors.push d
      staged := s.staged ++ [(t, s.descriptors.size)] })

def addClass (s : Session) (d : ClassDecl) : Ty × Session :=
  let (c, schema) := s.schema.addClass d
  (.cls c, { s with schema })

end Session

/-- What making implementations depends on, besides the session. -/
structure Workshop where
  provider : Provider
  registry : RegistryId
  nameInfix : String
  listener : Listener
  /-- The heap in which construction parameters are looked at. -/
  heap : Heap

/-- Finds or makes the descriptor of a type within a session. -/
abbrev Request := Ty → Session → Except RequestError (DescriptorId × Session)

end RecordForge
