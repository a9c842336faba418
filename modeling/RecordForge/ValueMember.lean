import RecordForge.Schema.Basic

/-!
# The value member of a wrapper

A class may wrap a value: one of its public members holds it. Which member that is, for a desired
type, is decided by rank. Fields come before properties; within each group a lower rank wins, and
of equal ranks the first candidate:

1. a member named `Value` whose type matches the desired one;
2. any member whose type matches;
3. a member named `Value` whose type is a proper base of the desired one, but not the root type.

Types match if they are the same, or if one is an enumeration and the other the kind under it.
-/

namespace RecordForge

/-- The name of the member that holds the value of a wrapper. -/
def valueName : String := "Value"

namespace Schema

variable (s : Schema)

/-- Whether a member's type matches a desired type. -/
def isMatch (desired member : Ty) : Bool :=
  member == desired ||
    match s.underlying? desired, s.underlying? member with
    | some k, _ => kind? member == some k
    | none, some k => kind? desired == some k
    | none, none => false

/-- Whether a member's type is a proper base of a desired type other than the root type. -/
def isBaseMatch (desired member : Ty) : Bool :=
  member != .any && s.isSubclass desired member

def fieldCandidates (wrapper : Ty) : List ValueMember :=
  (s.publicFields wrapper).map fun (slot, f) => ⟨f.name, f.type, .field slot⟩

def propertyCandidates (wrapper : Ty) : List ValueMember :=
  (s.publicProperties wrapper).map fun (_, p) => ⟨p.name, p.type, .property p.hasGetter p.hasSetter⟩

/-- The first candidate of the lowest rank. -/
def pick (desired : Ty) (candidates : List ValueMember) : Option ValueMember :=
  (candidates.find? fun m => m.name == valueName && s.isMatch desired m.type).or
    ((candidates.find? fun m => s.isMatch desired m.type).or
      (candidates.find? fun m => m.name == valueName && s.isBaseMatch desired m.type))

/-- The member of a wrapper that holds a value of a desired type. -/
def valueMember? (wrapper desired : Ty) : Option ValueMember :=
  if s.isClass wrapper then
    (s.pick desired (s.fieldCandidates wrapper)).or (s.pick desired (s.propertyCandidates wrapper))
  else none

end Schema

end RecordForge
