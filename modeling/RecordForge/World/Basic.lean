import RecordForge.Conversion
import RecordForge.Picture
import RecordForge.Registry

/-!
# Worlds

A world is the whole state of a run: the schema, the heap, the statics computed so far, the
registries with what they have made, and the events that an observer has seen.

A *run* is a computation on a world. It ends with a result or it halts: by a fault, by a panic, or
because calls were nested deeper than the run allows. Whatever it has done to the world by then
stays.
-/

namespace RecordForge

inductive Operation where
  | create
  | createWith
deriving DecidableEq, Repr

inductive Warning where
  | unavailable (operation : Operation) (type : String)
  | creationFailed (type : String) (fault : Fault)
  | dumpFailed (type : String)

def Warning.message : Warning → String
  | unavailable _ type => s!"The '{type}' type must have the public default constructor."
  | creationFailed .. => "instance creation failed"
  | dumpFailed _ => "failed to write descriptor dump"

/-- Something that an observer sees. -/
inductive Event where
  | logged (value : Picture)
  | failed (type : String) (fault : Fault)
  /-- A value went out through a mapper; it is shown before it was changed. -/
  | outward (value : Picture)
  /-- A value came in through a mapper; it is shown before it was changed. -/
  | inward (value : Picture)
  | warned (w : Warning)

structure World where
  schema : Schema := {}
  heap : Heap := {}
  /-- The statics that have been computed, by class and name. -/
  statics : List ((Ty × String) × Value) := []
  /-- The sites of steps that fail a limited number of times, once for each failure. -/
  spent : List Nat := []
  descriptors : Array Descriptor := #[]
  lookups : Array Lookup := #[]
  mappers : Array MemberMapper := #[]
  registries : Array Registry := #[]
  /-- What an observer has seen, the latest first. -/
  events : List Event := []

namespace World

variable (w : World)

def observe (e : Event) : World := { w with events := e :: w.events }

def classOf (o : ObjectId) : Ty := Schema.classOf w.heap o

def className (o : ObjectId) : String := w.schema.name (w.classOf o)

/-- Whether an object can stand where a type is expected. -/
def isInstance (o : ObjectId) (t : Ty) : Bool := w.schema.isAssignable (w.classOf o) t

def picture (v : Value) : Picture := w.schema.picture w.heap v

/-- The fault of a slot that an object does not have. -/
def badSlot (o : ObjectId) (slot : Nat) : Fault := .fieldIndex (w.className o) slot

def slotOf (o : ObjectId) (name : String) : Except Fault Nat :=
  match w.schema.fieldSlot? (w.classOf o) name with
  | some slot => .ok slot
  | none => .error (.missingMember (w.className o) name)

def field (o : ObjectId) (slot : Nat) : Except Fault Value :=
  match w.heap.field? o slot with
  | some v => .ok v
  | none => .error (w.badSlot o slot)

def setField (o : ObjectId) (slot : Nat) (v : Value) : Except Fault World :=
  match w.heap.store o slot v with
  | some heap => .ok { w with heap }
  | none => .error (w.badSlot o slot)

/-- A new object of a class with blank fields. -/
def newObject (t : Ty) : Option (ObjectId × World) :=
  match t with
  | .cls c => (w.schema.class? c).map fun d =>
    let (o, heap) := w.heap.allocate c d.isValueType (d.layout.map FieldDecl.blank)
    (o, { w with heap })
  | _ => none

/-- What a place of a type holds before anything is stored there. -/
def blankValue (t : Ty) : Value × World :=
  let (v, heap) := w.heap.place (w.schema.blank t)
  (v, { w with heap })

end World

/-- A computation on a world. -/
abbrev Run := ExceptT Halt (StateM World)

namespace Run

def halt {α : Type} (e : Halt) : Run α := throw e

def fail {α : Type} (f : Fault) : Run α := halt (.fault f)

/-- The result of a check. -/
def ofExcept {α : Type} : Except Fault α → Run α
  | .ok a => pure a
  | .error f => fail f

/-- What a question about the world answers. -/
def ask {α : Type} (q : World → α) : Run α := q <$> get

/-- What an attempt on the world comes to. -/
def attempt {α : Type} (q : World → Except Halt α) : Run α := do
  match q (← get) with
  | .ok a => return a
  | .error e => halt e

/-- What a question about the world answers, or its fault. -/
def check {α : Type} (q : World → Except Fault α) : Run α := do
  ofExcept (q (← get))

/-- Changes the world, or halts by a fault. -/
def change (step : World → Except Fault World) : Run Unit := do
  set (← check step)

def observe (e : Event) : Run Unit := modify (·.observe e)

def display (event : Picture → Event) (v : Value) : Run Unit := do
  observe (event (← ask (·.picture v)))

def newCarrier : Run CarrierId := do
  let w ← get
  let (c, heap) := w.heap.newCarrier
  set { w with heap }
  return c

def setParameters (c : CarrierId) (values : Option (List Value)) : Run Unit :=
  modify fun w => { w with heap := w.heap.setParameters c values }

/-- Runs `body` and then `after`, however `body` ends. -/
def ensuring {α : Type} (body : Run α) (after : Run Unit) : Run α := fun w =>
  match body.run w with
  | (.ok a, w) => (do after; return a : Run α) w
  | (.error e, w) => (do after; halt e : Run α) w

/-- How a run ends, as a value. -/
def outcome {α : Type} (body : Run α) : Run (Except Halt α) := fun w =>
  match body.run w with
  | (r, w) => (.ok r, w)

end Run

end RecordForge
