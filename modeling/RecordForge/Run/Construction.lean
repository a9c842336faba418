import RecordForge.Run.Access

/-!
# Running constructors and creating instances

The constructor of an implementation follows its plan. A step that builds a field through a
descriptor never fails: a creation that does is reported, and the field stays null. A step that
builds a field directly fails with its constructor.

While a step with construction parameters runs, its carrier holds them; however the step ends, the
carrier holds none afterwards.
-/

namespace RecordForge

open Run

/-! ## Descriptors -/

namespace Descriptor

/-- The event by which a listener is told of a failed creation. -/
def failure (d : Descriptor) (name : String) (f : Fault) : Event :=
  match d.listener with
  | .observer => .failed name f
  | .log => .warned (.creationFailed name f)

/-- Tells the listener of a failed creation. -/
def tell (d : Descriptor) (f : Fault) : Run Creation := do
  let name ← ask (·.schema.name d.type)
  observe (d.failure name f)
  return .failed f

/-- Creates an instance by a constructor. A fault or a panic ends here: the listener is told of it
once, and it becomes the outcome. -/
def guarded (c : Calls) (d : Descriptor) (constructor : Nat) (args : List Value) :
    Run Creation := do
  match ← outcome (c.construct d.product constructor args) with
  | .ok o => return .created o
  | .error (.fault f) => d.tell f
  | .error (.panic reason) => d.tell (.panicked (reason.getD "Unknown panic"))
  | .error .exhausted => halt .exhausted

def create (c : Calls) (d : Descriptor) : Run Creation :=
  match d.defaultConstructor with
  | some i => d.guarded c i []
  | none => return .unavailable

def createWith (c : Calls) (d : Descriptor) (carrier : CarrierId) : Run Creation :=
  match d.factoryConstructor with
  | some i => d.guarded c i (if d.factoryTakesCarrier then [.carrier carrier] else [])
  | none => return .unavailable

end Descriptor

/-! ## Plans -/

/-- The carriers of one construction, as far as there are any: the argument, and one of its own. -/
structure Carriers where
  argument : Option CarrierId
  transient : Option CarrierId := none
deriving DecidableEq, Repr

namespace Carriers

/-- The carrier from a source; one that is not there is made. -/
def take (cs : Carriers) : CarrierSource → Run (CarrierId × Carriers)
  | .argument => do
    let c ← match cs.argument with
      | some c => pure c
      | none => newCarrier
    return (c, { cs with argument := some c })
  | .transient => do
    let c ← match cs.transient with
      | some c => pure c
      | none => newCarrier
    return (c, { cs with transient := some c })

end Carriers

namespace Run

/-- Runs `body` while a carrier holds parameters; afterwards the carrier holds none. Without
parameters the carrier is left as it is. -/
def withParameters {α : Type} (carrier : CarrierId) (parameters : Option (List Value))
    (body : Run α) : Run α :=
  match parameters with
  | none => body
  | some vs => do
    setParameters carrier (some vs)
    ensuring body (setParameters carrier none)

/-- The descriptor that a lookup stands for. -/
def resolve (l : LookupId) : Run Descriptor := do
  let (d, w) ← attempt (·.resolve l)
  set w
  return d

end Run

def Operand.load (parameters : Option (List Value)) : Operand → Run Value
  | .literal v => return v
  | .parameter index type =>
    match (parameters.getD [])[index]? with
    | some v => cast v type
    | none => fail (.missingMember "parameters" s!"[{index}]")

def Operand.loadAll (parameters : Option (List Value)) : List Operand → Run (List Value)
  | [] => return []
  | a :: as => do
    let v ← a.load parameters
    let vs ← loadAll parameters as
    return v :: vs

namespace BuildStep

/-- The value that a creation gives to the field: the object, if it fits the type of the field. -/
def received (step : BuildStep) (w : World) (creation : Creation) : Value :=
  (creation.object?.filter (w.isInstance · step.fieldType)).elim .null .object

/-- Makes the value of the field. -/
def build (c : Calls) (step : BuildStep) (cs : Carriers) : Run (Value × Carriers) :=
  match step.source with
  | .lookup l source => do
    let d ← resolve l
    let (carrier, cs) ← cs.take source
    let creation ← withParameters carrier step.parameters (d.createWith c carrier)
    let v ← ask (step.received · creation)
    return (v, cs)
  | .direct target constructor args => do
    let values ← Operand.loadAll step.parameters args
    return (.object (← c.construct target constructor values), cs)
  | .withCarrier target constructor source => do
    let (carrier, cs) ← cs.take source
    let o ← withParameters carrier step.parameters
      (c.construct target constructor [.carrier carrier])
    return (.object o, cs)

def run (c : Calls) (o : ObjectId) (step : BuildStep) (cs : Carriers) : Run Carriers := do
  let (v, cs) ← step.build c cs
  change (·.setField o step.slot v)
  return cs

def runAll (c : Calls) (o : ObjectId) : List BuildStep → Carriers → Run Carriers
  | [], cs => return cs
  | step :: steps, cs => do
    let cs ← step.run c o cs
    runAll c o steps cs

end BuildStep

namespace InfoStep

/-- Tells the value of a field of an object which property it belongs to. -/
def run (c : Calls) (o : ObjectId) (i : InfoStep) : Run Unit := do
  match ← check (·.field o i.slot) with
  | .object target =>
    match ← ask fun w => w.schema.receiver? (w.classOf target) with
    | some body =>
      let frame : Frame := { this := some target, info := some ⟨o, i.propertyType, i.property⟩ }
      discard (Routine.run c frame body)
    | none =>
      let name ← ask (·.className target)
      fail (.missingMember name "SetInfo")
  | _ => fail (.nullReference ("'" ++ i.field ++ "' is null"))

end InfoStep

namespace BaseCall

def run (c : Calls) (o : ObjectId) (b : BaseCall) (cs : Carriers) : Run Unit :=
  if b.passesCarrier then do
    let (carrier, _) ← cs.take .argument
    c.chain b.target b.constructor o [.carrier carrier]
  else c.chain b.target b.constructor o []

end BaseCall

namespace ConstructionPlan

def run (c : Calls) (o : ObjectId) (args : List Value) (p : ConstructionPlan) : Run Unit := do
  let argument := if p.takesCarrier then args.head?.bind Value.carrier? else none
  let cs ← BuildStep.runAll c o p.steps { argument }
  p.infos.forM (InfoStep.run c o)
  match p.base with
  | some b => b.run c o cs
  | none => return

end ConstructionPlan

/-! ## Bodies -/

def ConstructorBody.run (c : Calls) (o : ObjectId) (args : List Value) : ConstructorBody → Run Unit
  | .routine body => discard (Routine.run c { this := some o, args } body)
  | .chain none => return
  | .chain (some (base, constructor)) => c.chain base constructor o []
  | .wrapped kind => present kind o (args.headD .null)
  | .plan p => p.run c o args

end RecordForge
