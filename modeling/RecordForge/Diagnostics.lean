import RecordForge.Schema.Basic
import RecordForge.Text.Quoted

/-!
# Values in diagnostics

Two texts of a value. The *plain* text is what a conversion to text gives. The *detailed* text also
tells the type, quotes text, and lists the parameters of a carrier. A carrier that holds itself has no
detailed text: to write it down never ends.
-/

namespace RecordForge

/-- The detailed text of a scalar: its kind and its text, or the text alone between quotes. -/
def Scalar.detailed (x : Scalar) (lib : TextLibrary := .standard) : String :=
  match x with
  | .text t => "Str(" ++ Text.quote t ++ ")"
  | _ => x.kind.name ++ "(" ++ x.toText lib ++ ")"

def bracketed (items : List String) : String :=
  "[" ++ ", ".intercalate items ++ "]"

namespace Schema

variable (s : Schema) (h : Heap)

def classOf (o : ObjectId) : Ty :=
  (h.object? o).elim .any fun i => .cls i.cls

/-- The type of a value when the program runs; null has the root type. -/
def typeOf : Value → Ty
  | .null => .any
  | .scalar x => .scalar x.kind
  | .object o => classOf h o
  | .carrier _ => .carrier

/-- The type of a value by name; null has a name of its own. -/
def typeName (v : Value) : String :=
  match v with
  | .null => "null"
  | _ => s.name (typeOf h v)

/-- The plain text of a value. -/
def plain (v : Value) : String :=
  match v with
  | .null => "null"
  | .scalar x => x.toText
  | _ => "<" ++ s.typeName h v ++ ">"

/-- A carrier in words, given what it holds. -/
def describeCarrier (parameters : String) : String :=
  "InitDataRef \x7b member_parameters: " ++ parameters ++ " \x7d"

/-- The detailed text of a value, going into carriers down to a depth; none if that is not enough. -/
def detailedTo (lib : TextLibrary) : Nat → Value → Option String
  | depth, v =>
    match v with
    | .null => some "Null"
    | .scalar x => some (x.detailed lib)
    | .object _ => some ("ObjectRef(" ++ s.typeName h v ++ ")")
    | .carrier c =>
      match h.parameters? c, depth with
      | none, _ => some (describeCarrier "None")
      | some _, 0 => none
      | some vs, depth + 1 =>
        (vs.mapM (detailedTo lib depth)).map fun texts =>
          describeCarrier ("Some(" ++ bracketed texts ++ ")")

/-- The detailed text of a value. It has no end, and so there is none, if it comes to a carrier that
holds itself, be it by way of others. Any other chain of carriers is no longer than their number. -/
def detailed (v : Value) (lib : TextLibrary := .standard) : Option String :=
  s.detailedTo h lib h.carriers.size v

/-- The detailed text of a list of values. -/
def detailedList (vs : List Value) : Option String :=
  (vs.mapM fun v => s.detailed h v).map bracketed

def detailedType (t : Ty) : String := "TypeRef(" ++ s.name t ++ ")"

end Schema

/-- The detailed text of something that may be missing. -/
def detailedOption : Option String → String
  | some x => "Some(" ++ x ++ ")"
  | none => "None"

def detailedBool (b : Bool) : String := if b then "true" else "false"

/-- The detailed text of what is attached to a property. -/
def Schema.detailedAttribute (s : Schema) (h : Heap) : Attribute → Option String
  | .mapType t => some ("MapType(" ++ s.detailedType t ++ ")")
  | .parameters vs => (s.detailedList h vs).map fun texts => "Parameters(" ++ texts ++ ")"

/-- The detailed text of a property: name, type, whether each accessor is abstract, and what is
attached. -/
def Schema.detailedProperty (s : Schema) (h : Heap) (p : PropertyDecl) : Option String :=
  (p.attributes.mapM (s.detailedAttribute h)).map fun attributes =>
    "PropertyDef \x7b name: " ++ Text.quote p.name ++ ", ty: " ++ s.detailedType p.type ++
      ", getter: " ++ detailedOption (p.getter.map fun a => detailedBool a.isAbstract) ++
      ", setter: " ++ detailedOption (p.setter.map fun a => detailedBool a.isAbstract) ++
      ", attributes: " ++ bracketed attributes ++ " \x7d"

def Schema.detailedConstructors (s : Schema) (cs : List ConstructorDecl) : String :=
  bracketed (cs.map fun c => "CtorDef(" ++ s.signature c.params ++ ")")

end RecordForge
