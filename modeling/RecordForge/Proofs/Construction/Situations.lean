import RecordForge.Proofs.Run.Depth

/-!
# Situations in a creation

Creating an instance sets off one act after the other: the constructor of an implementation builds
fields, the values of the fields are created by constructors in turn, and so on, down to the bodies
that users have written. A `Situation` is a world together with what is about to be done in it.
`Starts` says which acts an act gives rise to before it ends, each in its own situation, and `Meets` is
the same over any number of levels.

With that one can say what a creation depends on: the bodies of users that are run in its course, and
whether the registries that are asked answer (`Situation.Cooperates`).
-/

namespace RecordForge

open Run

/-! ## Acts -/

/-- Something that is done in the course of a creation. -/
inductive Act where
  /-- Creates an object of a type by a constructor. -/
  | construct (t : Ty) (k : Nat) (args : List Value)
  /-- Runs a constructor of a type on an object. -/
  | chain (t : Ty) (k : Nat) (o : ObjectId) (args : List Value)
  /-- Runs the body of a constructor on an object. -/
  | body (o : ObjectId) (args : List Value) (b : ConstructorBody)
  /-- Builds a field of an object. -/
  | build (o : ObjectId) (step : BuildStep) (cs : Carriers)
  /-- Tells the value of a field of an object its property. -/
  | inform (o : ObjectId) (i : InfoStep)
  /-- Runs a routine of a user. -/
  | perform (f : Frame) (r : Routine)

namespace Act

/-- Does what the act is. -/
def run (c : Calls) : Act → Run Unit
  | construct t k args => discard (c.construct t k args)
  | chain t k o args => c.chain t k o args
  | body o args b => b.run c o args
  | build o step cs => discard (step.run c o cs)
  | inform o i => i.run c o
  | perform f r => discard (r.run c f)

/-- Whether the act runs a body that was written by a user. -/
def isUser : Act → Bool
  | perform .. | body _ _ (.wrapped _) => true
  | _ => false

/-- Whether the act is to run a plan. -/
def isPlan : Act → Bool
  | body _ _ (.plan _) => true
  | _ => false

/-- The lookup that the act resolves. -/
def lookup? : Act → Option LookupId
  | build _ step _ =>
    match step.source with
    | .lookup l _ => some l
    | _ => none
  | _ => none

/-- The object whose field the value belongs to that is told its property. -/
def owner? : Act → Option ObjectId
  | perform f _ => f.info.map PropertyInfo.owner
  | _ => none

end Act

/-- The carriers with which a plan begins. -/
def ConstructionPlan.carriers (p : ConstructionPlan) (args : List Value) : Carriers :=
  { argument := if p.takesCarrier then args.head?.bind Value.carrier? else none }

/-- The arguments for the constructor of the abstract class. -/
def BaseCall.arguments (b : BaseCall) (cs : Carriers) : Run (List Value) := do
  if b.passesCarrier then
    let (carrier, _) ← cs.take .argument
    return [.carrier carrier]
  else return []

theorem BaseCall.run_eq (c : Calls) (o : ObjectId) (b : BaseCall) (cs : Carriers) :
    b.run c o cs = b.arguments cs >>= fun values => c.chain b.target b.constructor o values := by
  rw [run, arguments]
  cases b.passesCarrier with
  | false => simp
  | true => simp

/-- What a step hands to the factory constructor of a descriptor. -/
def Descriptor.given (x : Descriptor) (carrier : CarrierId) : List Value :=
  if x.factoryTakesCarrier then [.carrier carrier] else []

/-- A world in which a carrier holds the parameters of a step, if there are any. -/
def World.hold (w : World) (carrier : CarrierId) (parameters : Option (List Value)) : World :=
  match parameters with
  | none => w
  | some vs => { w with heap := w.heap.setParameters carrier (some vs) }

/-- A world after a step whose carrier held parameters, if there were any. -/
def World.release (w : World) (carrier : CarrierId) (parameters : Option (List Value)) : World :=
  match parameters with
  | none => w
  | some _ => { w with heap := w.heap.setParameters carrier none }

/-- What is run while a carrier holds the parameters of a step. -/
theorem Run.withParameters_run {α : Type} (carrier : CarrierId) (parameters : Option (List Value))
    (x : Run α) (w : World) : withParameters carrier parameters x w =
      ((x (w.hold carrier parameters)).1,
        (x (w.hold carrier parameters)).2.release carrier parameters) := by
  cases parameters with
  | none => rfl
  | some vs =>
    show ensuring x (setParameters carrier none) (w.hold carrier (some vs)) = _
    rw [ensuring_run]
    cases (x (w.hold carrier (some vs))).1 <;> rfl

/-- Some objects are as they were in an earlier world. -/
def World.Spares (w : World) (os : List ObjectId) (w' : World) : Prop :=
  ∀ o ∈ os, w'.heap.object? o = w.heap.object? o

/-- If a lookup asks a registry, that is alive. -/
def World.Answers (w : World) (l : LookupId) : Prop :=
  ∀ lookup ∈ w.lookups[l]?, ∀ registry ∈ w.registries[lookup.registry]?, registry.isAlive = true

/-- A lookup that asks a registry which is gone gives a descriptor, or a fault. -/
theorem World.exists_fault_of_resolve {w : World} {l : LookupId} {e : Halt} (hl : ¬w.Answers l)
    (he : w.resolve l = .error e) : ∃ f, e = .fault f := by
  obtain ⟨lookup, hlookup, registry, hr, hgone⟩ : ∃ lookup, w.lookups[l]? = some lookup ∧
      ∃ registry, w.registries[lookup.registry]? = some registry ∧ registry.isAlive = false := by
    simpa [Answers] using hl
  have hnone : (w.registries[lookup.registry]?).filter Registry.isAlive = none := by
    simp [hr, Option.filter, hgone]
  simp only [resolve, hlookup, hnone] at he
  cases hfound : lookup.found.bind (w.descriptors[·]?) with
  | some x => rw [hfound] at he; cases he
  | none =>
    rw [hfound] at he
    exact ⟨_, (Except.error.inj he).symm⟩

/-! ## Situations -/

/-- A world and what is about to be done in it. The objects that are *being built* are those of which
an implementation is building the fields, or telling their values the properties. -/
structure Situation where
  world : World
  act : Act
  building : List ObjectId := []

namespace Situation

/-- The act ends, and leaves a world. -/
def Ends (m : Situation) (w : World) : Prop := Returns (fun c => m.act.run c) m.world () w

/-- An act gives rise to another before it ends. What comes before that has ended. -/
inductive Starts : Situation → Situation → Prop
  /-- A new object has its constructor run. -/
  | construct {w w' : World} {t : Ty} {k : Nat} {args : List Value} {os : List ObjectId}
      {decl : ConstructorDecl} {o : ObjectId}
      (hd : w.schema.constructorFor t k args.length = .ok decl) (hn : w.newObject t = some (o, w')) :
      Starts ⟨w, .construct t k args, os⟩ ⟨w', .body o args decl.body, os⟩
  | chain {w : World} {t : Ty} {k : Nat} {o : ObjectId} {args : List Value} {os : List ObjectId}
      {decl : ConstructorDecl} (hd : w.schema.constructorFor t k args.length = .ok decl) :
      Starts ⟨w, .chain t k o args, os⟩ ⟨w, .body o args decl.body, os⟩
  | routine {w : World} {o : ObjectId} {args : List Value} {r : Routine} {os : List ObjectId} :
      Starts ⟨w, .body o args (.routine r), os⟩ ⟨w, .perform { this := some o, args } r, os⟩
  | next {w : World} {o : ObjectId} {args : List Value} {t : Ty} {k : Nat} {os : List ObjectId} :
      Starts ⟨w, .body o args (.chain (some (t, k))), os⟩ ⟨w, .chain t k o [], os⟩
  /-- A plan builds a field. -/
  | build {w w' : World} {o : ObjectId} {args : List Value} {p : ConstructionPlan}
      {os : List ObjectId} {before after : List BuildStep} {step : BuildStep} {cs : Carriers}
      (hp : p.steps = before ++ step :: after)
      (h : Returns (fun c => BuildStep.runAll c o before (p.carriers args)) w cs w') :
      Starts ⟨w, .body o args (.plan p), os⟩ ⟨w', .build o step cs, o :: os⟩
  /-- A plan tells the value of a field its property. -/
  | inform {w w' w'' : World} {o : ObjectId} {args : List Value} {p : ConstructionPlan}
      {os : List ObjectId} {before after : List InfoStep} {i : InfoStep} {cs : Carriers}
      (hp : p.infos = before ++ i :: after)
      (h : Returns (fun c => BuildStep.runAll c o p.steps (p.carriers args)) w cs w')
      (hi : Returns (fun c => before.forM (InfoStep.run c o)) w' () w'') :
      Starts ⟨w, .body o args (.plan p), os⟩ ⟨w'', .inform o i, o :: os⟩
  /-- A plan runs the constructor of the abstract class. -/
  | base {w w' w'' w₃ : World} {o : ObjectId} {args values : List Value} {p : ConstructionPlan}
      {os : List ObjectId} {b : BaseCall} {cs : Carriers} (hp : p.base = some b)
      (h : Returns (fun c => BuildStep.runAll c o p.steps (p.carriers args)) w cs w')
      (hi : Returns (fun c => p.infos.forM (InfoStep.run c o)) w' () w'')
      (ha : b.arguments cs w'' = (.ok values, w₃)) :
      Starts ⟨w, .body o args (.plan p), os⟩ ⟨w₃, .chain b.target b.constructor o values, os⟩
  /-- A step creates an object. -/
  | direct {w w' : World} {o : ObjectId} {step : BuildStep} {cs : Carriers} {os : List ObjectId}
      {t : Ty} {k : Nat} {operands : List Operand} {values : List Value}
      (hs : step.source = .direct t k operands)
      (hl : Operand.loadAll step.parameters operands w = (.ok values, w')) :
      Starts ⟨w, .build o step cs, os⟩ ⟨w', .construct t k values, os⟩
  /-- A step creates an object and hands on a carrier. -/
  | withCarrier {w w' : World} {o : ObjectId} {step : BuildStep} {cs cs' : Carriers}
      {os : List ObjectId} {t : Ty} {k : Nat} {source : CarrierSource} {carrier : CarrierId}
      (hs : step.source = .withCarrier t k source)
      (ht : cs.take source w = (.ok (carrier, cs'), w')) :
      Starts ⟨w, .build o step cs, os⟩
        ⟨w'.hold carrier step.parameters, .construct t k [.carrier carrier], os⟩
  /-- A step turns to a descriptor. -/
  | lookup {w w' w'' : World} {o : ObjectId} {step : BuildStep} {cs cs' : Carriers}
      {os : List ObjectId} {l : LookupId} {source : CarrierSource} {carrier : CarrierId}
      {x : Descriptor} {k : Nat} (hs : step.source = .lookup l source)
      (hr : w.resolve l = .ok (x, w')) (ht : cs.take source w' = (.ok (carrier, cs'), w''))
      (hk : x.factoryConstructor = some k) :
      Starts ⟨w, .build o step cs, os⟩
        ⟨w''.hold carrier step.parameters, .construct x.product k (x.given carrier), os⟩
  /-- The value of a field receives its property. -/
  | inform_receiver {w : World} {o target : ObjectId} {i : InfoStep} {os : List ObjectId}
      {r : Routine} (hf : w.field o i.slot = .ok (.object target))
      (hr : w.schema.receiver? (w.classOf target) = some r) :
      Starts ⟨w, .inform o i, os⟩
        ⟨w, .perform { this := some target, info := some ⟨o, i.propertyType, i.property⟩ } r, os⟩

/-- An act starts one other at the most, unless it is to run a plan. -/
theorem Starts.unique {m m₁ m₂ : Situation} (h : Starts m m₁) (h' : Starts m m₂)
    (hp : m.act.isPlan = false) : m₁ = m₂ := by
  cases h with
  | construct hd hn =>
    cases h' with
    | construct hd' hn' =>
      obtain rfl := Except.ok.inj (hd.symm.trans hd')
      obtain ⟨rfl, rfl⟩ := Prod.mk.inj (Option.some.inj (hn.symm.trans hn'))
      rfl
  | chain hd =>
    cases h' with
    | chain hd' =>
      obtain rfl := Except.ok.inj (hd.symm.trans hd')
      rfl
  | routine => cases h' with | routine => rfl
  | next => cases h' with | next => rfl
  | build => cases hp
  | inform => cases hp
  | base => cases hp
  | direct hs hl =>
    cases h' with
    | direct hs' hl' =>
      obtain ⟨rfl, rfl, rfl⟩ := Source.direct.inj (hs.symm.trans hs')
      obtain ⟨hv, rfl⟩ := end_inj.mp (hl.symm.trans hl')
      obtain rfl := Except.ok.inj hv
      rfl
    | withCarrier hs' => cases hs.symm.trans hs'
    | lookup hs' => cases hs.symm.trans hs'
  | withCarrier hs ht =>
    cases h' with
    | direct hs' => cases hs.symm.trans hs'
    | withCarrier hs' ht' =>
      obtain ⟨rfl, rfl, rfl⟩ := Source.withCarrier.inj (hs.symm.trans hs')
      obtain ⟨hv, rfl⟩ := end_inj.mp (ht.symm.trans ht')
      obtain ⟨rfl, rfl⟩ := Prod.mk.inj (Except.ok.inj hv)
      rfl
    | lookup hs' => cases hs.symm.trans hs'
  | lookup hs hr ht hk =>
    cases h' with
    | direct hs' => cases hs.symm.trans hs'
    | withCarrier hs' => cases hs.symm.trans hs'
    | lookup hs' hr' ht' hk' =>
      obtain ⟨rfl, rfl⟩ := Source.lookup.inj (hs.symm.trans hs')
      obtain ⟨rfl, rfl⟩ := Prod.mk.inj (Except.ok.inj (hr.symm.trans hr'))
      obtain ⟨hv, rfl⟩ := end_inj.mp (ht.symm.trans ht')
      obtain ⟨rfl, rfl⟩ := Prod.mk.inj (Except.ok.inj hv)
      obtain rfl := Option.some.inj (hk.symm.trans hk')
      rfl
  | inform_receiver hf hr =>
    cases h' with
    | inform_receiver hf' hr' =>
      obtain rfl := Value.object.inj (Except.ok.inj (hf.symm.trans hf'))
      obtain rfl := Option.some.inj (hr.symm.trans hr')
      rfl
/-- An act is met in the course of another. -/
inductive Meets (m : Situation) : Situation → Prop
  | refl : Meets m m
  | tail {m' m'' : Situation} (h : Meets m m') (hs : Starts m' m'') : Meets m m''

variable {m m' m'' : Situation}

theorem Meets.single (h : Starts m m') : Meets m m' := Meets.refl.tail h

theorem Meets.trans (h : Meets m m') (h' : Meets m' m'') : Meets m m'' := by
  induction h' with
  | refl => exact h
  | tail _ hs ih => exact ih.tail hs

/-- What is met is the act itself, or is met in the course of one that it starts. -/
theorem Meets.cases_head (h : Meets m m'') : m'' = m ∨ ∃ m', Starts m m' ∧ Meets m' m'' := by
  induction h with
  | refl => exact .inl rfl
  | tail _ hs ih =>
    rcases ih with rfl | ⟨m₁, h₁, h₂⟩
    · exact .inr ⟨_, hs, .refl⟩
    · exact .inr ⟨m₁, h₁, h₂.tail hs⟩

/-! ## What a creation depends on -/

/-- Every body of a user that is run in the course of an act returns, and leaves the objects that are
being built at that time as they are; and every registry that is asked is alive. -/
structure Cooperates (m : Situation) : Prop where
  bodies : ∀ m', m.Meets m' → m'.act.isUser = true → ∃ w, m'.Ends w ∧ m'.world.Spares m'.building w
  registries : ∀ m', m.Meets m' → ∀ l ∈ m'.act.lookup?, m'.world.Answers l

theorem Cooperates.starts (h : m.Cooperates) (hs : m.Starts m') : m'.Cooperates :=
  ⟨fun m₁ h₁ => h.bodies m₁ ((Meets.single hs).trans h₁),
    fun m₁ h₁ => h.registries m₁ ((Meets.single hs).trans h₁)⟩

/-- Every act that is met ends. -/
def Succeeds (m : Situation) : Prop := ∀ m', m.Meets m' → ∃ w, m'.Ends w

theorem Succeeds.of_starts (h : ∃ w, m.Ends w) (hs : ∀ m', m.Starts m' → m'.Succeeds) :
    m.Succeeds := by
  intro m'' hm
  rcases hm.cases_head with rfl | ⟨m', h₁, h₂⟩
  · exact h
  · exact hs m' h₁ m'' h₂

theorem Succeeds.of_start (h : ∃ w, m.Ends w) (hs : m.Starts m') (hp : m.act.isPlan = false)
    (hm : m'.Succeeds) : m.Succeeds :=
  .of_starts h fun _ h' => hs.unique h' hp ▸ hm

/-- The body of a user starts nothing that is looked into. -/
theorem Cooperates.succeeds (h : m.Cooperates) (hu : m.act.isUser = true) : m.Succeeds := by
  obtain ⟨w, hw, -⟩ := h.bodies m .refl hu
  exact .of_starts ⟨w, hw⟩ fun m' hs => by cases hs <;> cases hu

end Situation

end RecordForge
