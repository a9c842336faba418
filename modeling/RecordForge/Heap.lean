import RecordForge.Ty

/-!
# The heap

The heap holds the objects and the carriers of one run. An object knows its class, its fields, and
whether it is *held by value*: such an object belongs to the field it is stored in, so storing it
somewhere else stores a copy.

## Order of allocation

An object is numbered before the objects that its fields hold by value. So along the chain "holds
by value" numbers grow, the chain has no cycle, and it is no longer than the number of objects.
That number bounds the depth to which copies and comparisons follow the chain.
-/

namespace RecordForge

/-- An object: its class, whether it is held by value, and its fields by slot. -/
structure Instance where
  cls : ClassId
  byValue : Bool
  fields : List Value
deriving DecidableEq

/-- What a field holds before anything is stored in it: null, a scalar, or an object of its own,
held by value, with its fields in turn. -/
inductive Blank where
  | null
  | scalar (s : Scalar)
  | record (cls : ClassId) (fields : List Blank)

/-- The objects and the carriers of a run. A carrier holds the construction parameters of the
member that is being built, or none. -/
structure Heap where
  objects : Array Instance := #[]
  carriers : Array (Option (List Value)) := #[]

namespace Heap

/-! ## Objects -/

def object? (h : Heap) (o : ObjectId) : Option Instance := h.objects[o]?

/-- Whether a value is an object that is held by value. -/
def isByValue (h : Heap) : Value → Bool
  | .object o => (h.object? o).any (·.byValue)
  | _ => false

def field? (h : Heap) (o : ObjectId) (slot : Nat) : Option Value :=
  (h.object? o).bind fun i => i.fields[slot]?

/-- A new object without fields, to be filled. -/
def reserve (h : Heap) (cls : ClassId) (byValue : Bool) : ObjectId × Heap :=
  (h.objects.size, { h with objects := h.objects.push ⟨cls, byValue, []⟩ })

def fill (h : Heap) (o : ObjectId) (fields : List Value) : Heap :=
  { h with objects := h.objects.modify o fun i => { i with fields } }

/-- Puts a value into a slot as it is. -/
def put (h : Heap) (o : ObjectId) (slot : Nat) (v : Value) : Heap :=
  { h with objects := h.objects.modify o fun i => { i with fields := i.fields.set slot v } }

mutual

/-- The value of a blank, with the objects it needs. -/
def place (h : Heap) : Blank → Value × Heap
  | .null => (.null, h)
  | .scalar s => (.scalar s, h)
  | .record cls blanks =>
    let (o, h) := h.reserve cls true
    let (fields, h) := placeAll h blanks
    (.object o, h.fill o fields)

def placeAll (h : Heap) : List Blank → List Value × Heap
  | [] => ([], h)
  | b :: bs =>
    let (v, h) := place h b
    let (vs, h) := placeAll h bs
    (v :: vs, h)

end

def allocate (h : Heap) (cls : ClassId) (byValue : Bool) (blanks : List Blank) : ObjectId × Heap :=
  let (o, h) := h.reserve cls byValue
  let (fields, h) := h.placeAll blanks
  (o, h.fill o fields)

/-! ## Copies -/

/-- The value to store for a value, given how objects are copied: a copy of an object that is held
by value, else the value itself. -/
def assignWith (copy : Heap → ObjectId → ObjectId × Heap) (h : Heap) (v : Value) : Value × Heap :=
  match v with
  | .object o =>
    if h.isByValue v then
      let (o', h) := copy h o
      (.object o', h)
    else (v, h)
  | _ => (v, h)

def assignAll (copy : Heap → ObjectId → ObjectId × Heap) (h : Heap) : List Value → List Value × Heap
  | [] => ([], h)
  | v :: vs =>
    let (v, h) := assignWith copy h v
    let (vs, h) := assignAll copy h vs
    (v :: vs, h)

/-- Copies an object and, down to a depth, what its fields hold by value. -/
def copyTo : Nat → Heap → ObjectId → ObjectId × Heap
  | 0, h, o => (o, h)
  | depth + 1, h, o =>
    match h.object? o with
    | none => (o, h)
    | some i =>
      let (o', h) := h.reserve i.cls i.byValue
      let (fields, h) := assignAll (copyTo depth) h i.fields
      (o', h.fill o' fields)

/-- An independent copy of an object; what its fields hold by value is copied too. -/
def copy (h : Heap) (o : ObjectId) : ObjectId × Heap :=
  copyTo h.objects.size h o

/-- The value to store for a value: a copy of an object that is held by value, else itself. -/
def assign (h : Heap) (v : Value) : Value × Heap :=
  h.assignWith copy v

/-- Stores a value into a slot; none if the object has no such slot. -/
def store (h : Heap) (o : ObjectId) (slot : Nat) (v : Value) : Option Heap :=
  match h.object? o with
  | none => none
  | some i =>
    if slot < i.fields.length then
      let (v, h) := h.assign v
      some (h.put o slot v)
    else none

/-! ## Equality -/

/-- Equality of values, given equality of objects. -/
def sameValue (same : ObjectId → ObjectId → Bool) : Value → Value → Bool
  | .null, .null => true
  | .scalar a, .scalar b => a.same b
  | .object a, .object b => same a b
  | .carrier a, .carrier b => a == b
  | _, _ => false

/-- Pointwise equality of lists of one length. -/
def sameAll (same : ObjectId → ObjectId → Bool) : List Value → List Value → Bool
  | [], [] => true
  | v :: vs, w :: ws => sameValue same v w && sameAll same vs ws
  | _, _ => false

/-- Equality of objects down to a depth: the same object, or two objects of one class that are
held by value and have equal fields. -/
def sameObject (h : Heap) : Nat → ObjectId → ObjectId → Bool
  | 0, a, b => a == b
  | depth + 1, a, b => a == b ||
    match h.object? a, h.object? b with
    | some i, some j =>
      i.byValue && j.byValue && i.cls == j.cls &&
        sameAll (sameObject h depth) i.fields j.fields
    | _, _ => false

/-- Equality of values: of scalars as scalars, of objects held by value by their contents, of all
other objects and of carriers by identity. -/
def same (h : Heap) : Value → Value → Bool :=
  sameValue (h.sameObject h.objects.size)

/-! ## Carriers -/

def newCarrier (h : Heap) : CarrierId × Heap :=
  (h.carriers.size, { h with carriers := h.carriers.push none })

def parameters? (h : Heap) (c : CarrierId) : Option (List Value) :=
  (h.carriers[c]?).join

def setParameters (h : Heap) (c : CarrierId) (values : Option (List Value)) : Heap :=
  { h with carriers := h.carriers.setIfInBounds c values }

end Heap

end RecordForge
