import RecordForge.Proofs.Construction.Situations

/-!
# Runs with notes

What a run does in its course cannot be read off the world that it leaves: which creations through
descriptors there were, and when a plan handed out parameters. A `Traced` run is a run together with
`Note`s of that, in the order of time. Every construct of the language of bodies has a traced form,
which differs from the construct in the notes only: without them it is the construct itself
(`TracedCalls.nested_run`). Where a construct makes no calls, it is lifted as a whole.
-/

namespace RecordForge

open Run

/-! ## Notes -/

/-- What is noted of a run. -/
inductive Note where
  /-- An observer has seen something other than the report of a creation. -/
  | seen (e : Event)
  /-- A creation through a descriptor has ended; the type of the descriptor has this name. -/
  | ended (x : Descriptor) (name : String) (r : Creation)
  /-- A carrier is given the parameters of a step, until the step ends. -/
  | installed (k : CarrierId)
  /-- A routine replaces the parameters of a carrier. -/
  | replaced (k : CarrierId)

/-- What observers have seen since an earlier world, the earliest first. -/
def World.since (w w' : World) : List Event :=
  (w'.events.take (w'.events.length - w.events.length)).reverse

/-- A run, and what is noted of it. -/
structure Traced (α : Type) where
  run : Run α
  notes : World → List Note

namespace Traced

variable {α β : Type}

instance : Monad Traced where
  pure a := ⟨pure a, fun _ => []⟩
  bind x f := ⟨x.run >>= fun a => (f a).run,
    fun w => x.notes w ++ following x.run (fun a => (f a).notes) w⟩

/-- A run of which nothing is noted but what observers see. -/
def lift (x : Run α) : Traced α := ⟨x, fun w => (w.since (x w).2).map .seen⟩

/-- How a run ends, as a value. -/
def outcome (x : Traced α) : Traced (Except Halt α) := ⟨Run.outcome x.run, x.notes⟩

/-- Runs `body` while a carrier holds parameters. -/
def withParameters (carrier : CarrierId) (parameters : Option (List Value)) (body : Traced α) :
    Traced α where
  run := Run.withParameters carrier parameters body.run
  notes w := (parameters.toList.map fun _ => .installed carrier) ++
    body.notes (w.hold carrier parameters)

/-- A routine replaces the parameters of a carrier. -/
def replaceParameters (carrier : CarrierId) (values : Option (List Value)) : Traced Unit where
  run := Run.setParameters carrier values
  notes _ := [.replaced carrier]

theorem run_bind (x : Traced α) (f : α → Traced β) :
    (x >>= f).run = x.run >>= fun a => (f a).run := rfl

theorem run_lift (x : Run α) : (lift x).run = x := rfl

theorem notes_bind (x : Traced α) (f : α → Traced β) (w : World) :
    (x >>= f).notes w = x.notes w ++ following x.run (fun a => (f a).notes) w := rfl

theorem notes_bind_of_ok {x : Traced α} {f : α → Traced β} {w w' : World} {a : α}
    (h : x.run w = (.ok a, w')) : (x >>= f).notes w = x.notes w ++ (f a).notes w' := by
  rw [notes_bind, following_of_ok h]

theorem notes_map (f : α → β) (x : Traced α) (w : World) : (f <$> x).notes w = x.notes w := by
  show x.notes w ++ following x.run (fun _ _ => []) w = x.notes w
  rw [following]
  split <;> exact List.append_nil _

theorem notes_discard (x : Traced α) (w : World) : (discard x).notes w = x.notes w :=
  notes_map _ x w

end Traced

open Traced

/-- The calls of a body, with notes. -/
structure TracedCalls where
  read : ObjectId → String → Traced Value
  write : ObjectId → String → Value → Traced Unit
  construct : Ty → Nat → List Value → Traced ObjectId
  chain : Ty → Nat → ObjectId → List Value → Traced Unit

/-- The calls without notes. -/
def TracedCalls.run (c : TracedCalls) : Calls where
  read o name := (c.read o name).run
  write o name v := (c.write o name v).run
  construct t k args := (c.construct t k args).run
  chain t k o args := (c.chain t k o args).run

/-! ## Routines -/

mutual

/-- The value of a term. -/
def Term.traced (c : TracedCalls) (f : Frame) : Term → Traced Value
  | .property name => do c.read (← lift (thisObject f)) name
  | .propertyOf target name => do c.read (← lift (object (← target.traced c f))) name
  | .construct type constructor args => do
    let t ← match type with
      | some t => pure t
      | none => lift (classAtHand f)
    let values ← Term.tracedAll c f args
    return .object (← c.construct t constructor values)
  | t => lift (t.eval c.run f)

/-- The values of terms, in order. -/
def Term.tracedAll (c : TracedCalls) (f : Frame) : List Term → Traced (List Value)
  | [] => return []
  | t :: ts => do
    let v ← t.traced c f
    let vs ← Term.tracedAll c f ts
    return v :: vs

end

/-- Does one step of a routine. -/
def Action.traced (c : TracedCalls) (f : Frame) : Action → Traced Unit
  | .setField name t => do
    let v ← t.traced c f
    lift (do writeField (← thisObject f) name v)
  | .setProperty name t => do
    let v ← t.traced c f
    c.write (← lift (thisObject f)) name v
  | .setPropertyOf target name t => do
    let o ← lift (object (← target.traced c f))
    let v ← t.traced c f
    c.write o name v
  | .log t => do lift (display .logged (← t.traced c f))
  | .chain type constructor args => do
    let values ← Term.tracedAll c f args
    c.chain type constructor (← lift (thisObject f)) values
  | .setParameters index values =>
    match f.carrier? index with
    | none => return
    | some carrier =>
      match values with
      | none => replaceParameters carrier none
      | some ts => do
        let vs ← Term.tracedAll c f ts
        replaceParameters carrier (some vs)
  | a => lift (a.perform c.run f)

/-- Runs a routine. -/
def Routine.traced (c : TracedCalls) (f : Frame) : Routine → Traced Value
  | [] => return .null
  | .give t :: _ => t.traced c f
  | a :: rest => do
    a.traced c f
    Routine.traced c f rest

/-! ## Accessors -/

/-- Reads a member of an object. -/
def ValueMember.tracedRead (c : TracedCalls) (m : ValueMember) (v : Value) : Traced Value := do
  let o ← lift (m.holder v)
  match m.place with
  | .field slot => lift (check (·.field o slot))
  | .property .. => c.read o m.name

/-- Writes a member of an object. -/
def ValueMember.tracedWrite (c : TracedCalls) (m : ValueMember) (v new : Value) : Traced Unit := do
  let o ← lift (m.holder v)
  match m.place with
  | .field slot => lift (change (·.setField o slot new))
  | .property .. => c.write o m.name new

/-- Runs the body of a getter. -/
def Getter.traced (c : TracedCalls) (o : ObjectId) : Getter → Traced Value
  | .routine body => Routine.traced c { this := some o } body
  | .through i member type => do
    let v ← member.tracedRead c (← lift (check (·.field o i)))
    match type with
    | none => return v
    | some t => lift (cast v t)
  | g => lift (g.run c.run o)

/-- Runs the body of a setter. -/
def Setter.traced (c : TracedCalls) (o : ObjectId) (v : Value) : Setter → Traced Unit
  | .routine body => discard (Routine.traced c { this := some o, args := [v] } body)
  | .through i member type => do
    let v ← lift (cast v type)
    member.tracedWrite c (← lift (check (·.field o i))) v
  | s => lift (s.run c.run o v)

/-! ## Creating instances -/

namespace Descriptor

/-- A creation ends. If it has failed, the listener is told. -/
def conclude (d : Descriptor) (r : Creation) : Traced Creation where
  run := match r with
    | .failed f => d.tell f
    | r => return r
  notes w := [.ended d (w.schema.name d.type) r]

/-- What comes of a creation if the constructor ends in some way. -/
def creationOf : Except Halt ObjectId → Option Creation
  | .ok o => some (.created o)
  | .error (.fault f) => some (.failed f)
  | .error (.panic reason) => some (.failed (.panicked (reason.getD "Unknown panic")))
  | .error .exhausted => none

/-- Creates an instance by a constructor. -/
def tracedGuarded (c : TracedCalls) (d : Descriptor) (constructor : Nat) (args : List Value) :
    Traced Creation := do
  match creationOf (← (c.construct d.product constructor args).outcome) with
  | some r => d.conclude r
  | none => lift (halt .exhausted)

/-- Creates an instance, with a carrier if one is given. -/
def tracedCreate (c : TracedCalls) (d : Descriptor) : Option CarrierId → Traced Creation
  | none =>
    match d.defaultConstructor with
    | some i => d.tracedGuarded c i []
    | none => d.conclude .unavailable
  | some carrier =>
    match d.factoryConstructor with
    | some i => d.tracedGuarded c i (d.given carrier)
    | none => d.conclude .unavailable

end Descriptor

/-! ## Plans -/

namespace BuildStep

/-- Makes the value of a field. -/
def tracedBuild (c : TracedCalls) (step : BuildStep) (cs : Carriers) : Traced (Value × Carriers) :=
  match step.source with
  | .lookup l source => do
    let d ← lift (resolve l)
    let (carrier, cs) ← lift (cs.take source)
    let creation ← Traced.withParameters carrier step.parameters (d.tracedCreate c (some carrier))
    let v ← lift (ask (step.received · creation))
    return (v, cs)
  | .direct target constructor args => do
    let values ← lift (Operand.loadAll step.parameters args)
    return (.object (← c.construct target constructor values), cs)
  | .withCarrier target constructor source => do
    let (carrier, cs) ← lift (cs.take source)
    let o ← Traced.withParameters carrier step.parameters
      (c.construct target constructor [.carrier carrier])
    return (.object o, cs)

/-- Builds a field of an object. -/
def traced (c : TracedCalls) (o : ObjectId) (step : BuildStep) (cs : Carriers) :
    Traced Carriers := do
  let (v, cs) ← step.tracedBuild c cs
  lift (change (·.setField o step.slot v))
  return cs

/-- Builds fields of an object, in order. -/
def tracedAll (c : TracedCalls) (o : ObjectId) : List BuildStep → Carriers → Traced Carriers
  | [], cs => return cs
  | step :: steps, cs => do
    let cs ← step.traced c o cs
    tracedAll c o steps cs

end BuildStep

/-- Tells the value of a field of an object its property. -/
def InfoStep.traced (c : TracedCalls) (o : ObjectId) (i : InfoStep) : Traced Unit := do
  match ← lift (check (·.field o i.slot)) with
  | .object target =>
    match ← lift (ask fun w => w.schema.receiver? (w.classOf target)) with
    | some body =>
      let frame : Frame := { this := some target, info := some ⟨o, i.propertyType, i.property⟩ }
      discard (Routine.traced c frame body)
    | none => lift (do fail (.missingMember (← ask (·.className target)) "SetInfo"))
  | _ => lift (fail (.nullReference ("'" ++ i.field ++ "' is null")))

/-- Tells the values of fields of an object their properties, in order. -/
def InfoStep.tracedAll (c : TracedCalls) (o : ObjectId) : List InfoStep → Traced Unit
  | [] => return
  | i :: is => do
    i.traced c o
    tracedAll c o is

/-- Runs the constructor of the abstract class. -/
def BaseCall.traced (c : TracedCalls) (o : ObjectId) (b : BaseCall) (cs : Carriers) :
    Traced Unit := do
  c.chain b.target b.constructor o (← lift (b.arguments cs))

/-- Runs a plan on an object. -/
def ConstructionPlan.traced (c : TracedCalls) (o : ObjectId) (args : List Value)
    (p : ConstructionPlan) : Traced Unit := do
  let cs ← BuildStep.tracedAll c o p.steps (p.carriers args)
  InfoStep.tracedAll c o p.infos
  match p.base with
  | some b => b.traced c o cs
  | none => return

/-- Runs the body of a constructor on an object. -/
def ConstructorBody.traced (c : TracedCalls) (o : ObjectId) (args : List Value) :
    ConstructorBody → Traced Unit
  | .routine body => discard (Routine.traced c { this := some o, args } body)
  | .chain (some (base, constructor)) => c.chain base constructor o []
  | .plan p => p.traced c o args
  | b => lift (b.run c.run o args)

/-! ## Calls -/

namespace TracedCalls

/-- Reads a property of an object by the body that dispatch finds. -/
def readStep (c : TracedCalls) (o : ObjectId) (name : String) : Traced Value := do
  let getter ← lift (check fun w => w.schema.getterFor (w.classOf o) name)
  getter.traced c o

/-- Writes a property of an object by the body that dispatch finds. -/
def writeStep (c : TracedCalls) (o : ObjectId) (name : String) (v : Value) : Traced Unit := do
  let setter ← lift (check fun w => w.schema.setterFor (w.classOf o) name)
  setter.traced c o v

/-- A new object of a type with blank fields, and the constructor that is to be run on it. -/
def enter (t : Ty) (constructor count : Nat) : Run (ObjectId × ConstructorDecl) := do
  let w ← get
  if !w.schema.isClass t || w.schema.isAbstract t then
    fail (.notInstantiable (w.schema.name t))
  else
    let decl ← ofExcept (w.schema.constructorFor t constructor count)
    match w.newObject t with
    | none => fail (.notInstantiable (w.schema.name t))
    | some (o, w) =>
      set w
      return (o, decl)

theorem enter_eq_ok {t : Ty} {k count : Nat} {r : ObjectId × ConstructorDecl} {w w' : World}
    (h : enter t k count w = (.ok r, w')) :
    w.schema.constructorFor t k count = .ok r.2 ∧ w.newObject t = some (r.1, w') := by
  rw [enter, get_bind] at h
  split at h
  · cases h
  · rw [bind_run, ofExcept_run] at h
    cases hd : w.schema.constructorFor t k count with
    | error e => rw [hd] at h; cases h
    | ok decl =>
      rw [hd] at h
      cases hn : w.newObject t with
      | none => rw [hn] at h; cases h
      | some ow => rw [hn] at h; cases h; exact ⟨rfl, rfl⟩

/-- Creates an object of a type with blank fields and runs a constructor on it. -/
def constructStep (c : TracedCalls) (t : Ty) (constructor : Nat) (args : List Value) :
    Traced ObjectId := do
  let (o, decl) ← lift (enter t constructor args.length)
  decl.body.traced c o args
  return o

/-- Runs a constructor of a type on an object. -/
def chainStep (c : TracedCalls) (t : Ty) (constructor : Nat) (o : ObjectId) (args : List Value) :
    Traced Unit := do
  let decl ← lift (check (·.schema.constructorFor t constructor args.length))
  decl.body.traced c o args

/-- Calls that may nest to a depth. -/
def nested : Nat → TracedCalls
  | 0 =>
    { read := fun _ _ => lift (halt .exhausted)
      write := fun _ _ _ => lift (halt .exhausted)
      construct := fun _ _ _ => lift (halt .exhausted)
      chain := fun _ _ _ _ => lift (halt .exhausted) }
  | depth + 1 =>
    { read := fun o name => (nested depth).readStep o name
      write := fun o name v => (nested depth).writeStep o name v
      construct := fun t constructor args => (nested depth).constructStep t constructor args
      chain := fun t constructor o args => (nested depth).chainStep t constructor o args }

end TracedCalls

/-- Does what an act is. -/
def Act.traced (c : TracedCalls) : Act → Traced Unit
  | construct t k args => discard (c.construct t k args)
  | chain t k o args => c.chain t k o args
  | body o args b => b.traced c o args
  | build o step cs => discard (step.traced c o cs)
  | inform o i => i.traced c o
  | perform f r => discard (Routine.traced c f r)

/-! ## Without notes -/

section
variable {c : TracedCalls} {f : Frame} {o : ObjectId}

mutual

theorem Term.traced_run (t : Term) : (t.traced c f).run = t.eval c.run f := by
  cases t with
  | propertyOf target name =>
    rw [Term.traced, Term.eval, ← Term.traced_run target]
    rfl
  | construct type k args =>
    cases type with
    | none =>
      rw [Term.traced, Term.eval, ← Term.tracedAll_run args]
      rfl
    | some t =>
      rw [Term.traced, Term.eval, ← Term.tracedAll_run args]
      rfl
  | property name => rfl
  | value v => rfl
  | argument index => rfl
  | field name => rfl
  | this => rfl
  | className => rfl
  | parameterCount index => rfl
  | parameter index i => rfl
  | owner => rfl
  | infoType => rfl
  | infoName => rfl
termination_by sizeOf t

theorem Term.tracedAll_run (ts : List Term) : (Term.tracedAll c f ts).run = Term.evalAll c.run f ts := by
  cases ts with
  | nil => rfl
  | cons t ts =>
    rw [Term.tracedAll, Term.evalAll, ← Term.traced_run t, ← Term.tracedAll_run ts]
    rfl
termination_by sizeOf ts

end

theorem Action.traced_run (a : Action) : (a.traced c f).run = a.perform c.run f := by
  cases a with
  | setField name t =>
    rw [Action.perform, ← t.traced_run]
    rfl
  | setProperty name t =>
    rw [Action.perform, ← t.traced_run]
    rfl
  | setPropertyOf target name t =>
    rw [Action.perform, ← t.traced_run, ← target.traced_run]
    rfl
  | log t =>
    rw [Action.perform, ← t.traced_run]
    rfl
  | chain type k args =>
    rw [Action.perform, ← Term.tracedAll_run args]
    rfl
  | setParameters index values =>
    rw [Action.traced, Action.perform]
    cases f.carrier? index with
    | none => rfl
    | some k =>
      cases values with
      | none => rfl
      | some ts =>
        dsimp only
        rw [← Term.tracedAll_run ts]
        rfl
  | give t => rfl
  | throw message => rfl
  | throwTimes site count message => rfl
  | panic reason => rfl

theorem Routine.traced_run (r : Routine) : (Routine.traced c f r).run = Routine.run c.run f r := by
  induction r with
  | nil => rfl
  | cons a rest ih =>
    have hnext : (do a.traced c f; Routine.traced c f rest : Traced Value).run =
        (do a.perform c.run f; Routine.run c.run f rest : Run Value) := by
      rw [← ih, ← a.traced_run]
      rfl
    cases a with
    | give t => exact t.traced_run
    | setField name t => exact hnext
    | setProperty name t => exact hnext
    | setPropertyOf target name t => exact hnext
    | throw message => exact hnext
    | throwTimes site count message => exact hnext
    | panic reason => exact hnext
    | log t => exact hnext
    | chain type k args => exact hnext
    | setParameters index values => exact hnext

theorem ValueMember.tracedRead_run (m : ValueMember) (v : Value) :
    (m.tracedRead c v).run = m.read c.run v := by
  rw [tracedRead, read]
  cases m.place <;> rfl

theorem ValueMember.tracedWrite_run (m : ValueMember) (v new : Value) :
    (m.tracedWrite c v new).run = m.write c.run v new := by
  rw [tracedWrite, write]
  cases m.place <;> rfl

theorem Getter.traced_run (g : Getter) : (g.traced c o).run = g.run c.run o := by
  cases g with
  | routine body => exact Routine.traced_run body
  | through i member type =>
    simp only [Getter.traced, Getter.run, run_bind, run_lift, ← member.tracedRead_run]
    cases type <;> rfl
  | slot i => rfl
  | isAbsent => rfl
  | wrapped type => rfl

theorem Setter.traced_run (s : Setter) (v : Value) : (s.traced c o v).run = s.run c.run o v := by
  cases s with
  | routine body =>
    rw [Setter.run, ← Routine.traced_run body]
    rfl
  | through i member type =>
    simp only [Setter.traced, Setter.run, run_bind, run_lift, ← member.tracedWrite_run]
  | slot i => rfl
  | slotOf i type => rfl
  | wrapped kind => rfl

/-- A creation that ends gives what has come of it. -/
theorem Descriptor.conclude_run (d : Descriptor) (r : Creation) (w : World) :
    (d.conclude r).run w =
      (.ok r, match r with
        | .failed f => w.observe (d.failure (w.schema.name d.type) f)
        | _ => w) := by
  cases r <;> rfl

/-- A creation gives what comes of the way in which its constructor ends. -/
theorem Descriptor.guarded_eq (c : Calls) (d : Descriptor) (k : Nat) (args : List Value) :
    d.guarded c k args = Run.outcome (c.construct d.product k args) >>= fun r =>
      match creationOf r with
      | some r => (d.conclude r).run
      | none => halt .exhausted := by
  rw [guarded]
  refine bind_congr fun r => ?_
  rcases r with (_ | _ | _) | o <;> rfl

theorem Descriptor.tracedGuarded_run (d : Descriptor) (k : Nat) (args : List Value) :
    (d.tracedGuarded c k args).run = d.guarded c.run k args := by
  rw [tracedGuarded, guarded_eq, run_bind]
  refine bind_congr fun r => ?_
  cases creationOf r <;> rfl

theorem Descriptor.tracedCreate_run (d : Descriptor) (given : Option CarrierId) :
    (d.tracedCreate c given).run = given.elim (d.create c.run) (d.createWith c.run) := by
  cases given with
  | none =>
    rw [tracedCreate]
    show _ = d.create c.run
    rw [create]
    cases d.defaultConstructor with
    | none => rfl
    | some k => exact d.tracedGuarded_run k []
  | some carrier =>
    rw [tracedCreate]
    show _ = d.createWith c.run carrier
    rw [createWith]
    cases d.factoryConstructor with
    | none => rfl
    | some k => exact d.tracedGuarded_run k _

theorem BuildStep.tracedBuild_run (step : BuildStep) (cs : Carriers) :
    (step.tracedBuild c cs).run = step.build c.run cs := by
  rw [tracedBuild, build]
  cases step.source with
  | lookup l source =>
    have hcreate : ∀ (d : Descriptor) (k : CarrierId),
        (d.tracedCreate c (some k)).run = d.createWith c.run k := fun d k =>
      d.tracedCreate_run (some k)
    simp only [← hcreate]
    rfl
  | direct target k args => rfl
  | withCarrier target k source => rfl

theorem BuildStep.traced_run (step : BuildStep) (cs : Carriers) :
    (step.traced c o cs).run = step.run c.run o cs := by
  rw [traced, run, run_bind, tracedBuild_run]
  rfl

theorem BuildStep.tracedAll_run (steps : List BuildStep) (cs : Carriers) :
    (BuildStep.tracedAll c o steps cs).run = BuildStep.runAll c.run o steps cs := by
  induction steps generalizing cs with
  | nil => rfl
  | cons step steps ih =>
    rw [tracedAll, runAll, run_bind, traced_run]
    simp only [ih]

theorem InfoStep.traced_run (i : InfoStep) : (i.traced c o).run = i.run c.run o := by
  rw [traced, run, run_bind]
  refine bind_congr fun v => ?_
  cases v with
  | object target =>
    refine bind_congr fun body => ?_
    cases body with
    | none => rfl
    | some body =>
      simp only [← Routine.traced_run]
      rfl
  | null => rfl
  | scalar s => rfl
  | carrier k => rfl

theorem InfoStep.tracedAll_run (is : List InfoStep) :
    (InfoStep.tracedAll c o is).run = is.forM (InfoStep.run c.run o) := by
  induction is with
  | nil => rfl
  | cons i is ih =>
    rw [tracedAll, run_bind, ih, traced_run]
    rfl

theorem BaseCall.traced_run (b : BaseCall) (cs : Carriers) :
    (b.traced c o cs).run = b.run c.run o cs := by
  rw [run_eq]
  rfl

theorem ConstructionPlan.traced_run (p : ConstructionPlan) (args : List Value) :
    (p.traced c o args).run = p.run c.run o args := by
  rw [traced, run, run_bind, BuildStep.tracedAll_run]
  refine bind_congr fun cs => ?_
  rw [run_bind, InfoStep.tracedAll_run]
  refine bind_congr fun _ => ?_
  cases p.base with
  | none => rfl
  | some b => exact b.traced_run cs

theorem ConstructorBody.traced_run (b : ConstructorBody) (args : List Value) :
    (b.traced c o args).run = b.run c.run o args := by
  cases b with
  | routine body =>
    rw [ConstructorBody.run, ← Routine.traced_run body]
    rfl
  | chain base =>
    cases base <;> rfl
  | wrapped kind => rfl
  | plan p => exact p.traced_run args

end

namespace TracedCalls

variable (c : TracedCalls)

theorem constructStep_run (t : Ty) (k : Nat) (args : List Value) :
    (c.constructStep t k args).run = c.run.constructStep t k args := by
  rw [constructStep, Calls.constructStep, run_bind, run_lift, enter, bind_assoc]
  refine bind_congr fun w => ?_
  split
  · rfl
  · rw [bind_assoc]
    refine bind_congr fun decl => ?_
    cases w.newObject t with
    | none => rfl
    | some ow =>
      obtain ⟨o, w'⟩ := ow
      dsimp only
      rw [← decl.body.traced_run]
      rfl

theorem chainStep_run (t : Ty) (k : Nat) (o : ObjectId) (args : List Value) :
    (c.chainStep t k o args).run = c.run.chainStep t k o args := by
  rw [chainStep, Calls.chainStep, run_bind, run_lift]
  exact bind_congr fun decl => decl.body.traced_run args

theorem readStep_run (o : ObjectId) (name : String) :
    (c.readStep o name).run = c.run.readStep o name := by
  rw [readStep, Calls.readStep, run_bind, run_lift]
  exact bind_congr fun getter => getter.traced_run

theorem writeStep_run (o : ObjectId) (name : String) (v : Value) :
    (c.writeStep o name v).run = c.run.writeStep o name v := by
  rw [writeStep, Calls.writeStep, run_bind, run_lift]
  exact bind_congr fun setter => setter.traced_run v

/-- **Traced calls are calls with notes.** -/
theorem nested_run (depth : Nat) : (nested depth).run = Calls.nested depth := by
  induction depth with
  | zero => rfl
  | succ depth ih =>
    rw [Calls.nested, ← ih]
    simp only [← readStep_run, ← writeStep_run, ← constructStep_run, ← chainStep_run]
    rfl

end TracedCalls

theorem Act.traced_run (c : TracedCalls) (act : Act) : (act.traced c).run = act.run c.run := by
  cases act with
  | construct t k args => rfl
  | chain t k o args => rfl
  | body o args b => exact b.traced_run args
  | build o step cs =>
    rw [Act.run, ← step.traced_run cs]
    rfl
  | inform o i => exact i.traced_run
  | perform f r =>
    rw [Act.run, ← Routine.traced_run r]
    rfl

end RecordForge
