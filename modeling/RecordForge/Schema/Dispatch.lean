import RecordForge.Schema.Basic
import RecordForge.Fault

/-!
# Dispatch

Which body an access to a property runs: that of the most derived class that declares the accessor
in question. A declaration without the accessor is passed over; one without a body ends the search
with a fault. Getter and setter are looked up apart from each other and without regard to
visibility.
-/

namespace RecordForge.Schema

variable (s : Schema)

/-- The most derived declaration of one of the accessors of a property. -/
def accessor? {α : Type} (part : PropertyDecl → Option (Accessor α)) (t : Ty) (name : String) :
    Option (Accessor α) :=
  (s.lineage t).findSome? fun (_, d) => (d.properties.find? fun p => p.name == name).bind part

/-- The body of an accessor, or why there is none. -/
def bodyOf {α : Type} (t : Ty) (name missing : String) : Option (Accessor α) → Except Fault α
  | some (.body b) => .ok b
  | some .abstract => .error (.abstractMember (s.name t) name)
  | none => .error (.missingMember (s.name t) missing)

def getterFor (t : Ty) (name : String) : Except Fault Getter :=
  s.bodyOf t name ("get_" ++ name) (s.accessor? PropertyDecl.getter t name)

def setterFor (t : Ty) (name : String) : Except Fault Setter :=
  s.bodyOf t name ("set_" ++ name) (s.accessor? PropertyDecl.setter t name)

/-- A constructor by number, for a call with a number of arguments. -/
def constructorFor (t : Ty) (index count : Nat) : Except Fault ConstructorDecl :=
  match (s.constructors t)[index]? with
  | none => .error (.missingMember (s.name t) s!".ctor#{index}")
  | some c =>
    if c.params.length = count then .ok c
    else
      let name := s.name t
      let params := s.signature c.params
      .error (.argumentCount s!"{name}({params})" count)

end RecordForge.Schema
