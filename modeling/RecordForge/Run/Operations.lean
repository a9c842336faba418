import RecordForge.Run.Calls

/-!
# Operations

What can be done with a world from outside: creating objects and running constructors, reading and
writing properties, fields, statics and value members, creating instances through descriptors, and
mapping members. Where an operation runs bodies, `depth` bounds how deep their calls may nest.
-/

namespace RecordForge.Run

/-- A bound on nested calls that ordinary bodies do not reach. -/
def defaultDepth : Nat := 100000

/-! ## Objects -/

def construct (depth : Nat) (t : Ty) (constructor : Nat) (args : List Value) : Run ObjectId :=
  (Calls.nested depth).construct t constructor args

def chain (depth : Nat) (t : Ty) (constructor : Nat) (o : ObjectId) (args : List Value) :
    Run Unit :=
  (Calls.nested depth).chain t constructor o args

def getProperty (depth : Nat) (o : ObjectId) (name : String) : Run Value :=
  (Calls.nested depth).read o name

def setProperty (depth : Nat) (o : ObjectId) (name : String) (v : Value) : Run Unit :=
  (Calls.nested depth).write o name v

def getField (o : ObjectId) (slot : Nat) : Run Value :=
  check (·.field o slot)

def setField (o : ObjectId) (slot : Nat) (v : Value) : Run Unit :=
  change (·.setField o slot v)

/-- An independent copy of an object. -/
def copy (o : ObjectId) : Run ObjectId := do
  let w ← get
  let (o', heap) := w.heap.copy o
  set { w with heap }
  return o'

/-- The value to store for a value. -/
def assign (v : Value) : Run Value := do
  let w ← get
  let (v, heap) := w.heap.assign v
  set { w with heap }
  return v

/-- The values of all fields, with their names. -/
def fields (o : ObjectId) : Run (List (String × Value)) :=
  ask fun w =>
    ((w.schema.fields (w.classOf o)).map FieldDecl.name).zip
      ((w.heap.object? o).elim [] Instance.fields)

/-- The values of the fields that an implementation owns, in order. -/
def ownedMembers (o : ObjectId) : Run (List Value) := do
  let slots ← ask fun w => (w.schema.ownedSlots? (w.classOf o)).getD []
  slots.mapM (getField o)

/-- What a place of a type holds before anything is stored there. -/
def blankValue (t : Ty) : Run Value := do
  let w ← get
  let (v, w) := w.blankValue t
  set w
  return v

/-! ## Statics -/

/-- Runs the initializer of a static of a class. -/
def computeStatic (depth : Nat) (t : Ty) : StaticBody → Run Value
  | .routine body => Routine.run (Calls.nested depth) { declaring := some t } body
  | .blank => do
    let w ← get
    match w.newObject t with
    | none => return .null
    | some (o, w) =>
      set w
      return .object o

/-- Reads a static of a class. Its initializer runs until it first succeeds; what it gave is kept,
and each read gives what would be stored for it. -/
def getStatic (depth : Nat) (t : Ty) (name : String) : Run Value := do
  let w ← get
  match w.schema.static? t name with
  | none => fail (.missingMember (w.schema.name t) name)
  | some d =>
    let v ← match w.statics.lookup (t, name) with
      | some v => pure v
      | none => do
        let v ← computeStatic depth t d.body
        modify fun w => { w with statics := ((t, name), v) :: w.statics }
        pure v
    assign v

/-! ## Value members -/

def readMember (depth : Nat) (m : ValueMember) (holder : Value) : Run Value :=
  m.read (Calls.nested depth) holder

def writeMember (depth : Nat) (m : ValueMember) (holder v : Value) : Run Unit :=
  m.write (Calls.nested depth) holder v

/-! ## Descriptors -/

def create (depth : Nat) (d : Descriptor) (carrier : Option CarrierId) : Run Creation :=
  match carrier with
  | none => d.create (Calls.nested depth)
  | some c => d.createWith (Calls.nested depth) c

/-! ## Member mappers -/

/-- The object that a wrapper is. -/
def wrapperObject (v : Value) : Run ObjectId :=
  match v with
  | .object o => return o
  | _ => do
    let name ← ask fun w => w.schema.typeName w.heap v
    fail (.nullReference ("'" ++ name ++ "' is not an object"))

/-- Whether the value of a member is a wrapper without a value. -/
def isAbsent (depth : Nat) (v : Value) : Run Bool := do
  let o ← wrapperObject v
  return (← getProperty depth o Nullable.absenceName).bool? == some true

def requireInstance (o : ObjectId) (t : Ty) : Run Unit := do
  let w ← get
  if !w.isInstance o t then fail (.typeMismatch (w.schema.name t) (w.className o))

/-- The fault of a mapper that cannot do what is asked of it. -/
def missingDirection {α : Type} (m : MemberMapper) (direction : String) : Run α := do
  let name ← ask (·.schema.name m.objectType)
  fail (.missingMember name (direction ++ m.member))

/-- The value of a member as a record sees it: a wrapper as its value, or as null. -/
def unwrap (depth : Nat) (r : MemberReader) (v : Value) : Run Value := do
  let absent ← if r.hasAbsence then isAbsent depth v else pure false
  if absent then return .null
  else if r.hasValue then getProperty depth (← wrapperObject v) valueName
  else return v

/-- Reads a member of an object through its mapper. -/
def mapGet (depth : Nat) (m : MemberMapper) (o : ObjectId) : Run Value :=
  match m.reader with
  | none => missingDirection m "get_"
  | some r => do
    requireInstance o r.declaring
    let v ← match m.access with
      | .field slot => getField o slot
      | .property => getProperty depth o m.member
    let v ← unwrap depth r v
    if m.hooks.isTraced then display .outward v
    ask fun w => m.hooks.outward w.heap v

/-- The value to store in a member for a value of a record. -/
def wrap (depth : Nat) (writer : MemberWriter) (v : Value) : Run Value :=
  match writer with
  | .scalar k => convert v k
  | .nullable k constructor wrapper => do
    if v.isNull then getStatic depth wrapper Nullable.sentinelName
    else if ← ask (fun w => v.object?.any (w.isInstance · wrapper)) then return v
    else
      let inner ← convert v k
      return .object (← construct depth wrapper constructor [inner])

/-- Writes a member of an object through its mapper. -/
def mapSet (depth : Nat) (m : MemberMapper) (o : ObjectId) (v : Value) : Run Unit :=
  match m.writer with
  | none => missingDirection m "set_"
  | some writer => do
    requireInstance o m.objectType
    if m.hooks.isTraced then display .inward v
    let v ← ask fun w => m.hooks.inward w.heap v
    let v ← wrap depth writer v
    match m.access with
    | .field slot => setField o slot v
    | .property => setProperty depth o m.member v

end RecordForge.Run
