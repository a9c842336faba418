import RecordForge.Run.Construction
import RecordForge.Schema.Dispatch

/-!
# Calls

Each call looks up a body and runs it. The calls that the body makes in turn are nested one level
deeper; `Calls.nested` bounds the depth, and a run that would go deeper is exhausted. A result that
is reached within some depth is the same for every greater one.
-/

namespace RecordForge

open Run

namespace Calls

/-- Reads a property of an object by the body that dispatch finds. -/
def readStep (c : Calls) (o : ObjectId) (name : String) : Run Value := do
  let getter ← check fun w => w.schema.getterFor (w.classOf o) name
  getter.run c o

/-- Writes a property of an object by the body that dispatch finds. -/
def writeStep (c : Calls) (o : ObjectId) (name : String) (v : Value) : Run Unit := do
  let setter ← check fun w => w.schema.setterFor (w.classOf o) name
  setter.run c o v

/-- Creates an object of a type with blank fields and runs a constructor on it. -/
def constructStep (c : Calls) (t : Ty) (constructor : Nat) (args : List Value) : Run ObjectId := do
  let w ← get
  if !w.schema.isClass t || w.schema.isAbstract t then
    fail (.notInstantiable (w.schema.name t))
  else
    let decl ← ofExcept (w.schema.constructorFor t constructor args.length)
    match w.newObject t with
    | none => fail (.notInstantiable (w.schema.name t))
    | some (o, w) =>
      set w
      decl.body.run c o args
      return o

/-- Runs a constructor of a type on an object. -/
def chainStep (c : Calls) (t : Ty) (constructor : Nat) (o : ObjectId) (args : List Value) :
    Run Unit := do
  let decl ← check (·.schema.constructorFor t constructor args.length)
  decl.body.run c o args

/-- Calls that may nest to a depth. -/
def nested : Nat → Calls
  | 0 =>
    { read := fun _ _ => halt .exhausted
      write := fun _ _ _ => halt .exhausted
      construct := fun _ _ _ => halt .exhausted
      chain := fun _ _ _ _ => halt .exhausted }
  | depth + 1 =>
    { read := fun o name => readStep (nested depth) o name
      write := fun o name v => writeStep (nested depth) o name v
      construct := fun t constructor args => constructStep (nested depth) t constructor args
      chain := fun t constructor o args => chainStep (nested depth) t constructor o args }

end Calls

end RecordForge
