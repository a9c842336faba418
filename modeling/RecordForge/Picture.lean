import RecordForge.Schema.Basic

/-!
# Pictures of values

What an observer sees of a value at one moment: later writes do not change a picture. An object
that is held by value is seen with its fields, any other object and a carrier only by identity.
-/

namespace RecordForge

/-- A value as it looks at one moment. Objects show the name of their class. -/
inductive Picture where
  | null
  | scalar (s : Scalar)
  | carrier (c : CarrierId)
  | shared (cls : String) (o : ObjectId)
  | record (cls : String) (o : ObjectId) (fields : List (String × Picture))

namespace Schema

variable (s : Schema) (h : Heap)

def pictureTo : Nat → Value → Picture
  | depth, v =>
    match v with
    | .null => .null
    | .scalar x => .scalar x
    | .carrier c => .carrier c
    | .object o =>
      match h.object? o with
      | none => .null
      | some i =>
        let name := s.name (.cls i.cls)
        match depth with
        | 0 => .shared name o
        | depth + 1 =>
          if i.byValue then
            let names := (s.fields (.cls i.cls)).map FieldDecl.name
            .record name o (names.zip (i.fields.map (pictureTo depth)))
          else .shared name o

/-- The picture of a value. What is held by value forms chains no longer than the number of
objects. -/
def picture (v : Value) : Picture :=
  s.pictureTo h h.objects.size v

end Schema

end RecordForge
