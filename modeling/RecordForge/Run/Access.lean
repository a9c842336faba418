import RecordForge.Run.Routine

/-!
# Running accessors

What the bodies of getters and setters do, among them those of nullable wrappers and those that
reach the value of a property through a member of a wrapper.
-/

namespace RecordForge

open Run

/-! ## Value members -/

namespace ValueMember

/-- The object that has the member. -/
def holder (m : ValueMember) (v : Value) : Run ObjectId :=
  match v with
  | .object o => return o
  | _ => fail (.nullReference ("cannot access '" ++ m.name ++ "' of null"))

def read (c : Calls) (m : ValueMember) (v : Value) : Run Value := do
  let o ← m.holder v
  match m.place with
  | .field slot => check (·.field o slot)
  | .property .. => c.read o m.name

def write (c : Calls) (m : ValueMember) (v new : Value) : Run Unit := do
  let o ← m.holder v
  match m.place with
  | .field slot => change (·.setField o slot new)
  | .property .. => c.write o m.name new

end ValueMember

namespace Run

/-- Checks that a value may be stored where a type is expected. -/
def cast (v : Value) (t : Ty) : Run Value :=
  check fun w => w.schema.cast w.heap v t

def convert (v : Value) (k : Kind) : Run Value :=
  attempt fun w => w.schema.convert w.heap v k

/-- Whether a nullable wrapper holds a value. -/
def isPresent (o : ObjectId) : Run Bool := do
  let v ← check (·.field o Nullable.presenceSlot)
  return v.bool? == some true

/-- Gives a nullable wrapper of a kind a value. -/
def present (k : Kind) (o : ObjectId) (v : Value) : Run Unit := do
  let v ← cast v (.scalar k)
  change (·.setField o Nullable.valueSlot v)
  change (·.setField o Nullable.presenceSlot (.ofBool true))

end Run

/-! ## Bodies -/

def Getter.run (c : Calls) (o : ObjectId) : Getter → Run Value
  | .routine body => Routine.run c { this := some o } body
  | .slot i => check (·.field o i)
  | .isAbsent => do return .ofBool !(← isPresent o)
  | .wrapped type => do
    if ← isPresent o then check (·.field o Nullable.valueSlot)
    else fail (.nullValue type)
  | .through i member type => do
    let v ← member.read c (← check (·.field o i))
    match type with
    | none => return v
    | some t => cast v t

def Setter.run (c : Calls) (o : ObjectId) (v : Value) : Setter → Run Unit
  | .routine body => discard (Routine.run c { this := some o, args := [v] } body)
  | .slot i => change (·.setField o i v)
  | .slotOf i type => do
    let v ← cast v type
    change (·.setField o i v)
  | .wrapped kind => present kind o v
  | .through i member type => do
    let v ← cast v type
    member.write c (← check (·.field o i)) v

end RecordForge
