import RecordForge.World.Request

/-!
# Running routines

A routine runs in a *frame*: the object it belongs to, its arguments, and what else it may refer
to. What it does to other objects goes through four *calls*: reading and writing properties,
creating objects, and running a constructor on an object. The calls are a parameter here, so that
a routine can be looked at by itself; they are tied to the bodies they run in `Run.Calls`.
-/

namespace RecordForge

/-- What a body can have done by other bodies. -/
structure Calls where
  read : ObjectId → String → Run Value
  write : ObjectId → String → Value → Run Unit
  construct : Ty → Nat → List Value → Run ObjectId
  chain : Ty → Nat → ObjectId → List Value → Run Unit

/-- What a receiver is told: the owner of the field, and the type and the name of the property. -/
structure PropertyInfo where
  owner : ObjectId
  type : Ty
  name : String
deriving DecidableEq, Repr

/-- What a routine may refer to. -/
structure Frame where
  this : Option ObjectId := none
  /-- The class of a static, while its initializer runs. -/
  declaring : Option Ty := none
  args : List Value := []
  info : Option PropertyInfo := none

namespace Frame

def argument (f : Frame) (index : Nat) : Value := f.args.getD index .null

def carrier? (f : Frame) (index : Nat) : Option CarrierId := (f.argument index).carrier?

end Frame

namespace Run

/-- The object that a value is. -/
def object (v : Value) : Run ObjectId :=
  match v with
  | .object o => return o
  | _ => fail (.thrown "not an object")

def thisObject (f : Frame) : Run ObjectId :=
  object (f.this.elim .null .object)

/-- The class that a routine has at hand: that of the static, or that of the object. -/
def classAtHand (f : Frame) : Run Ty :=
  match f.declaring with
  | some t => return t
  | none => do
    let o ← thisObject f
    ask (·.classOf o)

def readField (o : ObjectId) (name : String) : Run Value := do
  let slot ← check (·.slotOf o name)
  check (·.field o slot)

def writeField (o : ObjectId) (name : String) (v : Value) : Run Unit := do
  let slot ← check (·.slotOf o name)
  change (·.setField o slot v)

end Run

open Run

mutual

def Term.eval (c : Calls) (f : Frame) : Term → Run Value
  | .value v => return v
  | .argument index => return f.argument index
  | .field name => do readField (← thisObject f) name
  | .property name => do c.read (← thisObject f) name
  | .propertyOf target name => do c.read (← object (← target.eval c f)) name
  | .this => return f.this.elim .null .object
  | .className => do
    let o ← thisObject f
    return .ofText (← ask (·.className o))
  | .parameterCount index => do
    let held ← ask fun w => (f.carrier? index).bind w.heap.parameters?
    return .scalar (.integer (.ofInt32 (held.elim (-1) fun vs => (vs.length : Int))))
  | .parameter index i => do
    let held ← ask fun w => (f.carrier? index).bind w.heap.parameters?
    return (held.getD []).getD i .null
  | .construct type constructor args => do
    let t ← match type with
      | some t => pure t
      | none => classAtHand f
    let values ← Term.evalAll c f args
    return .object (← c.construct t constructor values)
  | .owner => return f.info.elim .null fun i => .object i.owner
  | .infoType => do
    let name ← ask fun w => f.info.map fun i => w.schema.name i.type
    return name.elim .null .ofText
  | .infoName => return f.info.elim .null fun i => .ofText i.name

def Term.evalAll (c : Calls) (f : Frame) : List Term → Run (List Value)
  | [] => return []
  | t :: ts => do
    let v ← t.eval c f
    let vs ← Term.evalAll c f ts
    return v :: vs

end

/-- Does one step of a routine, other than ending it. -/
def Action.perform (c : Calls) (f : Frame) : Action → Run Unit
  | .setField name t => do
    let v ← t.eval c f
    writeField (← thisObject f) name v
  | .setProperty name t => do
    let v ← t.eval c f
    c.write (← thisObject f) name v
  | .setPropertyOf target name t => do
    let o ← object (← target.eval c f)
    let v ← t.eval c f
    c.write o name v
  | .give _ => return
  | .throw message => fail (.thrown message)
  | .throwTimes site count message => do
    let failed ← ask fun w => w.spent.count site
    if failed < count then
      modify fun w => { w with spent := site :: w.spent }
      fail (.thrown message)
  | .panic reason => halt (.panic reason)
  | .log t => do display .logged (← t.eval c f)
  | .chain type constructor args => do
    let values ← Term.evalAll c f args
    c.chain type constructor (← thisObject f) values
  | .setParameters index values =>
    match f.carrier? index with
    | none => return
    | some carrier =>
      match values with
      | none => Run.setParameters carrier none
      | some ts => do
        let vs ← Term.evalAll c f ts
        Run.setParameters carrier (some vs)

/-- Runs a routine; its result is null unless it gives one. -/
def Routine.run (c : Calls) (f : Frame) : Routine → Run Value
  | [] => return .null
  | .give t :: _ => t.eval c f
  | a :: rest => do
    a.perform c f
    Routine.run c f rest

end RecordForge
