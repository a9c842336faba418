import RecordForge.Proofs.Heap.Storage
import RecordForge.Proofs.Run.Bodies
import RecordForge.Proofs.Synthesis.Evolution
import RecordForge.Proofs.Synthesis.Walks

/-!
# Runs let the world grow

Whatever bodies do, the schema grows and the heap grows: `nested_grows`. In particular an object that
a call has created is still of its class when the call returns (`construct_class`).

This needs no invariant. It holds in every world, also in one in which a registry is just publishing
descriptors.
-/

namespace RecordForge

/-! ## Values of no importance -/

mutual

theorem Term.all_true (t : Term) : t.All fun _ => True := by
  cases t with
  | propertyOf target name => exact Term.all_true target
  | construct type k args => exact Term.allList_true args
  | _ => trivial
termination_by sizeOf t

theorem Term.allList_true (ts : List Term) : Term.AllList (fun _ => True) ts := by
  cases ts with
  | nil => trivial
  | cons t ts => exact ⟨Term.all_true t, Term.allList_true ts⟩
termination_by sizeOf ts

end

theorem Routine.all_true (r : Routine) : r.All fun _ => True := by
  intro a _
  cases a with
  | setField name t => exact t.all_true
  | setProperty name t => exact t.all_true
  | setPropertyOf target name t => exact ⟨target.all_true, t.all_true⟩
  | give t => exact t.all_true
  | log t => exact t.all_true
  | chain type k args => exact Term.allList_true args
  | setParameters index values => exact fun ts _ => Term.allList_true ts
  | _ => trivial

theorem BuildStep.all_true (step : BuildStep) : step.All fun _ => True :=
  ⟨fun _ _ _ _ => trivial, fun _ _ _ _ _ _ => trivial⟩

theorem ConstructorBody.all_true (b : ConstructorBody) : b.All fun _ => True := by
  cases b with
  | routine body => exact body.all_true
  | plan p => exact fun step _ => step.all_true
  | _ => trivial

theorem Schema.literals_true (s : Schema) : s.Literals fun _ => True := by
  intro t d _
  refine ⟨fun c _ => c.body.all_true, fun p _ g _ => ?_, fun p _ g _ => ?_,
    fun body _ => body.all_true, fun f _ => ?_⟩
  · cases g with
    | routine body => exact body.all_true
    | _ => trivial
  · cases g with
    | routine body => exact body.all_true
    | _ => trivial
  · cases f.body with
    | routine body => exact body.all_true
    | blank => trivial

open RequestError (bind_eq_ok_iff)

/-! ## Lookups -/

/-- A lookup gives what it has found, or else what its registry answers while it is alive. -/
theorem World.resolve_eq_ok_iff {w w' : World} {l : LookupId} {d : Descriptor} :
    w.resolve l = .ok (d, w') ↔ ∃ lookup, w.lookups[l]? = some lookup ∧
      ((lookup.found.bind (w.descriptors[·]?) = some d ∧ w' = w) ∨
        (lookup.found.bind (w.descriptors[·]?) = none ∧ ∃ registry e w₁,
          w.registries[lookup.registry]? = some registry ∧ registry.isAlive = true ∧
          w.descriptorFor lookup.registry registry lookup.fieldType = .ok (e, w₁) ∧
          w₁.descriptors[e]? = some d ∧ w' = { w₁ with
            lookups := w₁.lookups.setIfInBounds l { lookup with found := some e } })) := by
  rw [resolve]
  cases hl : w.lookups[l]? with
  | none => simp [throw, throwThe, MonadExceptOf.throw]
  | some lookup =>
    simp only [Option.some.injEq, exists_eq_left']
    cases hfound : lookup.found.bind (w.descriptors[·]?) with
    | some d' =>
      simp only [pure, Except.pure, Except.ok.injEq, Prod.mk.injEq, Option.some.injEq, reduceCtorEq,
        false_and, or_false, eq_comm]
    | none =>
      simp only [true_and, reduceCtorEq, false_and, false_or]
      cases hr : (w.registries[lookup.registry]?).filter Registry.isAlive with
      | none =>
        refine ⟨(fun h => nomatch h), ?_⟩
        rintro ⟨registry, e, w₁, hr', halive, -⟩
        rw [hr', Option.filter_some_pos halive] at hr
        cases hr
      | some registry =>
        obtain ⟨hr', halive⟩ := Option.filter_eq_some_iff.mp hr
        dsimp only
        constructor
        · intro h
          cases hd : w.descriptorFor lookup.registry registry lookup.fieldType with
          | error e =>
            rw [hd] at h
            cases h
          | ok a =>
            obtain ⟨e, w₁⟩ := a
            rw [hd] at h
            dsimp only at h
            cases hx : w₁.descriptors[e]? with
            | none =>
              rw [hx] at h
              cases h
            | some x =>
              rw [hx] at h
              cases h
              exact ⟨registry, e, w₁, hr', halive, hd, hx, rfl⟩
        · rintro ⟨registry', e, w₁, hr'', -, hd, hx, rfl⟩
          obtain rfl := Option.some.inj (hr'.symm.trans hr'')
          rw [hd]
          simp only [hx]
          rfl

/-- A request adds to the schema, and leaves the heap as it is. -/
theorem World.descriptorFor_grows {w w' : World} {r : RegistryId} {registry : Registry} {t : Ty}
    {d : DescriptorId} (h : w.descriptorFor r registry t = .ok (d, w')) :
    w.schema.Extends w'.schema ∧ w'.heap = w.heap := by
  rw [descriptorFor] at h
  split at h
  · cases h
    exact ⟨.refl _, rfl⟩
  · obtain ⟨⟨found, s⟩, hf, h⟩ := bind_eq_ok_iff.mp h
    cases h
    exact ⟨registry.find_adds _ hf, rfl⟩

theorem World.resolve_grows {w w' : World} {l : LookupId} {d : Descriptor}
    (h : w.resolve l = .ok (d, w')) : w.schema.Extends w'.schema ∧ w'.heap = w.heap := by
  obtain ⟨lookup, -, ⟨-, rfl⟩ | ⟨-, registry, e, w₁, -, -, hd, -, rfl⟩⟩ := resolve_eq_ok_iff.mp h
  · exact ⟨.refl _, rfl⟩
  · have hgrows := descriptorFor_grows hd
    exact hgrows

/-- What observers have seen they have seen still. -/
theorem World.resolve_events {w w' : World} {l : LookupId} {d : Descriptor}
    (h : w.resolve l = .ok (d, w')) : w.events <:+ w'.events := by
  obtain ⟨lookup, -, ⟨-, rfl⟩ | ⟨-, registry, e, w₁, -, -, hd, -, rfl⟩⟩ := resolve_eq_ok_iff.mp h
  · exact List.suffix_refl _
  · show w.events <:+ w₁.events
    rw [descriptorFor] at hd
    split at hd
    · cases hd
      exact List.suffix_refl _
    · obtain ⟨⟨found, s⟩, -, hd⟩ := bind_eq_ok_iff.mp hd
      cases hd
      exact List.suffix_append _ _

/-! ## Growth -/

/-- The schema and the heap have grown, and observers have seen more. -/
structure World.Grows (w w' : World) : Prop where
  schema : w.schema.Extends w'.schema
  heap : w.heap.Grows w'.heap
  events : w.events <:+ w'.events

theorem World.Grows.refl (w : World) : w.Grows w := ⟨.refl _, .refl _, List.suffix_refl _⟩

theorem World.Grows.trans {w w' w'' : World} (h : w.Grows w') (h' : w'.Grows w'') : w.Grows w'' :=
  ⟨h.schema.trans h'.schema, h.heap.trans h'.heap, h.events.trans h'.events⟩

/-- An object stays of its class. -/
theorem World.classOf_of_grows {w w' : World} (h : w.heap.Grows w'.heap) {o : ObjectId} {c : ClassId}
    (ho : w.classOf o = .cls c) : w'.classOf o = .cls c := by
  cases hi : w.heap.object? o with
  | none =>
    rw [World.classOf, Schema.classOf, hi] at ho
    cases ho
  | some i => exact (h.classOf_eq (Heap.lt_of_object? hi)).trans ho

theorem World.Grows.classOf {w w' : World} (h : w.Grows w') {o : ObjectId} {c : ClassId}
    (ho : w.classOf o = .cls c) : w'.classOf o = .cls c := classOf_of_grows h.heap ho

/-- The regime under which worlds grow. -/
def Regime.growing : Regime where
  Inv _ := True
  Admits _ _ := True
  Opens _ _ := True
  Leads := World.Grows
  refl := World.Grows.refl
  trans := World.Grows.trans
  inv _ _ := trivial
  mono _ _ := trivial
  opens_mono _ _ := trivial
  admits _ := trivial
  encloses _ _ := .inl trivial
  literal _ := trivial
  literals _ := Schema.literals_true _
  field _ _ _ := trivial
  parameters _ _ _ _ _ := trivial
  store {w w' o k v} _ _ _ h := by
    obtain ⟨heap, hstore, rfl⟩ := World.setField_eq_ok_iff.mp h
    exact ⟨.refl _, Heap.store_grows hstore, List.suffix_refl _⟩
  allocate _ h := by
    obtain ⟨_, _, -, -, hw, -, hadds, -⟩ := World.newObject_spec h
    exact ⟨⟨hw ▸ .refl _, hadds.grows, hw ▸ List.suffix_refl _⟩, trivial⟩
  carrier {w c h} _ he := by
    cases he
    exact ⟨⟨.refl _, w.heap.newCarrier_grows, List.suffix_refl _⟩, trivial⟩
  setParameters {w c values} _ _ _ :=
    ⟨.refl _, w.heap.setParameters_grows c values, List.suffix_refl _⟩
  observe w e := ⟨.refl _, .refl _, List.suffix_cons e w.events⟩
  spend w _ := ⟨.refl _, .refl _, List.suffix_refl _⟩
  resolve _ h := by
    obtain ⟨hs, hh⟩ := World.resolve_grows h
    exact ⟨hs, hh ▸ .refl _, World.resolve_events h⟩

instance : Regime.growing.IsOpen := ⟨fun _ => trivial⟩

/-- Whatever runs lets the world grow. -/
theorem World.Grows.of_keeps {α : Type} {w w' : World} {x : Run α} {r : Except Halt α}
    {Q : World → α → Prop} (hx : Regime.growing.Keeps w x Q) (h : x w = (r, w')) : w.Grows w' := by
  have hleads := hx.1
  rwa [h] at hleads

theorem Regime.carries_growing (w : World) (cs : Carriers) : growing.Carries w cs :=
  ⟨fun _ _ => trivial, fun _ _ => trivial⟩

/-! ## The class of a new object -/

namespace Run

open World Regime

variable {depth : Nat} {w w' : World} {t : Ty} {k : Nat} {args : List Value} {o : ObjectId}

/-- Creating an object lets the world grow, and the object that is created is of the class that was
asked for, whatever its constructor has done. -/
theorem construct_grows (h : (Calls.nested depth).construct t k args w = (.ok o, w')) :
    w.Grows w' ∧ w'.classOf o = t := by
  have hall : ∀ v ∈ args, growing.Admits w v := fun _ _ => trivial
  refine ⟨.of_keeps ((growing.nested_lawful depth).construct t k trivial hall) h, ?_⟩
  cases depth with
  | zero => cases h
  | succ depth =>
    obtain ⟨-, -, decl, w₁, hdecl, hnew, hbody⟩ := constructStep_eq_ok_iff.mp h
    obtain ⟨c, d, rfl, -, -, rfl, -, i, hi, hs⟩ := newObject_spec hnew
    have hvalues : decl.body.All (growing.Admits w₁) :=
      (Schema.literals_true _).constructorFor hdecl
    have hlater : w₁.Grows w' := .of_keeps
      (keeps_constructor (growing.nested_lawful depth) trivial trivial hall hvalues) hbody
    refine hlater.classOf ?_
    rw [World.classOf, Schema.classOf, hi]
    exact congrArg (fun s : Shape => Ty.cls s.cls) hs

theorem tell_run (x : Descriptor) (e : Fault) :
    x.tell e w = (.ok (.failed e), w.observe (x.failure (w.schema.name x.type) e)) := rfl

/-- A creation that is guarded gives the object that the constructor has made, or none, and then the
listener is told. -/
theorem guarded_cases {c : Calls} {x : Descriptor} {creation : Creation}
    (h : x.guarded c k args w = (.ok creation, w')) :
    (∃ o, creation = .created o ∧ c.construct x.product k args w = (.ok o, w')) ∨
      ∃ e w₁, creation = .failed e ∧ (c.construct x.product k args w).2 = w₁ ∧
        w' = w₁.observe (x.failure (w₁.schema.name x.type) e) := by
  rw [Descriptor.guarded, bind_run, outcome_run] at h
  dsimp only at h
  cases hr : (c.construct x.product k args w).1 with
  | ok o =>
    rw [hr] at h
    obtain ⟨rfl, rfl⟩ := pure_eq_ok_iff.mp h
    exact .inl ⟨o, rfl, Prod.ext hr rfl⟩
  | error e =>
    rw [hr] at h
    cases e with
    | exhausted => cases h
    | fault e =>
      dsimp only at h
      rw [tell_run, end_inj] at h
      exact .inr ⟨e, _, (Except.ok.inj h.1).symm, rfl, h.2.symm⟩
    | panic reason =>
      dsimp only at h
      rw [tell_run, end_inj] at h
      exact .inr ⟨_, _, (Except.ok.inj h.1).symm, rfl, h.2.symm⟩

theorem guarded_eq_ok {c : Calls} {x : Descriptor} {creation : Creation}
    (h : x.guarded c k args w = (.ok creation, w')) :
    (∃ o, creation = .created o ∧ c.construct x.product k args w = (.ok o, w')) ∨
      ∃ e, creation = .failed e :=
  (guarded_cases h).imp_right fun ⟨e, _, he, _⟩ => ⟨e, he⟩

/-- An object that a descriptor creates is of the class of its instances. -/
theorem createWith_class {x : Descriptor} {carrier : CarrierId} {creation : Creation}
    (h : x.createWith (Calls.nested depth) carrier w = (.ok creation, w'))
    (ho : creation.object? = some o) : w'.classOf o = x.product := by
  rw [Descriptor.createWith] at h
  cases hk : x.factoryConstructor with
  | none =>
    rw [hk] at h
    cases h
    cases ho
  | some k =>
    rw [hk] at h
    rcases guarded_cases h with ⟨o', rfl, hconstruct⟩ | ⟨e, _, rfl, -⟩
    · obtain rfl := Option.some.inj ho
      exact (construct_grows hconstruct).2
    · cases ho

/-- What runs with parameters runs in some world, and no more than its carrier changes before and after
that. -/
theorem withParameters_eq_ok {α : Type} {carrier : CarrierId} {parameters : Option (List Value)}
    {body : Run α} {a : α} (h : withParameters carrier parameters body w = (.ok a, w')) :
    ∃ w₁ w₂, w.Grows w₁ ∧ body w₁ = (.ok a, w₂) ∧ w₂.Grows w' := by
  have hset : ∀ {w w₁ : World} {vs : Option (List Value)} {r : Except Halt Unit},
      setParameters carrier vs w = (r, w₁) → w.Grows w₁ :=
    .of_keeps (growing.keeps_setParameters trivial trivial fun _ _ _ _ => trivial)
  cases parameters with
  | none => exact ⟨w, w', .refl _, h, .refl _⟩
  | some vs =>
    obtain ⟨u, w₁, hbefore, h⟩ := bind_eq_ok_iff.mp h
    rw [ensuring_run] at h
    cases hbody : (body w₁).1 with
    | error e =>
      rw [hbody] at h
      obtain ⟨u, w₂, -, h⟩ := bind_eq_ok_iff.mp h
      cases h
    | ok b =>
      rw [hbody] at h
      obtain ⟨u, w₂, hafter, h⟩ := bind_eq_ok_iff.mp h
      obtain ⟨rfl, rfl⟩ := pure_eq_ok_iff.mp h
      exact ⟨w₁, (body w₁).2, hset hbefore, Prod.ext hbody rfl, hset hafter⟩

section
variable {step : BuildStep} {cs cs' : Carriers} {v : Value}

/-- A field that is built lets the world grow. -/
theorem build_grows (h : step.build (Calls.nested depth) cs w = (.ok (v, cs'), w')) : w.Grows w' := by
  have hstep : step.All (growing.Admits w) := step.all_true
  exact .of_keeps (keeps_build (growing.nested_lawful depth) trivial (carries_growing w cs) hstep) h

/-- So do steps of a plan. -/
theorem steps_grow {steps : List BuildStep}
    (h : BuildStep.runAll (Calls.nested depth) o steps cs w = (.ok cs', w')) : w.Grows w' :=
  .of_keeps (keeps_steps (growing.nested_lawful depth) trivial trivial (carries_growing w cs)
    fun step _ => step.all_true) h

/-- And so does what is left of a plan. -/
theorem runFrom_grows {p : ConstructionPlan} {steps : List BuildStep} {u : Unit}
    (h : p.runFrom (Calls.nested depth) o steps cs w = (.ok u, w')) : w.Grows w' :=
  .of_keeps (keeps_runFrom (growing.nested_lawful depth) trivial trivial (carries_growing w cs)
    fun step _ => step.all_true) h

/-- A field that is built through a descriptor receives what comes of a creation. -/
theorem build_received {x : Descriptor} {w₀ : World} {l : LookupId} {source : CarrierSource}
    (hsource : step.source = .lookup l source) (hl : w.resolve l = .ok (x, w₀))
    (h : step.build (Calls.nested depth) cs w = (.ok (v, cs'), w')) :
    ∃ carrier w₁ w₂ creation, w.Grows w₁ ∧
      x.createWith (Calls.nested depth) carrier w₁ = (.ok creation, w₂) ∧ w₂.Grows w' ∧
        v = step.received w' creation := by
  rw [BuildStep.build, hsource] at h
  dsimp only at h
  rw [bind_of_ok (resolve_eq_ok_iff.mpr hl)] at h
  obtain ⟨⟨carrier, cs₁⟩, w₁, htake, h⟩ := bind_eq_ok_iff.mp h
  obtain ⟨creation, w₂, hcreation, h⟩ := bind_eq_ok_iff.mp h
  rw [ask_bind] at h
  obtain ⟨hv, rfl⟩ := pure_eq_ok_iff.mp h
  obtain ⟨rfl, -⟩ := Prod.mk.inj hv
  obtain ⟨w₃, w₄, hfirst, hcreate, hlast⟩ := withParameters_eq_ok hcreation
  have hresolved : w.Grows w₀ := growing.resolve trivial hl
  have htaken : w₀.Grows w₁ :=
    .of_keeps (growing.keeps_take source trivial (carries_growing w₀ cs)) htake
  exact ⟨carrier, w₃, w₄, creation, (hresolved.trans htaken).trans hfirst, hcreate, hlast, rfl⟩

/-- A field that is built through a descriptor has an object of the class of its instances, unless
the creation fails. -/
theorem build_lookup {x : Descriptor} {w₀ : World} {l : LookupId} {source : CarrierSource}
    {c : ClassId} (hsource : step.source = .lookup l source) (hl : w.resolve l = .ok (x, w₀))
    (hx : x.product = .cls c) (hdeclares : w.schema.Declares x.product)
    (hfits : w.schema.isAssignable x.product step.fieldType = true)
    (h : step.build (Calls.nested depth) cs w = (.ok (v, cs'), w')) :
    (∃ o, v = .object o ∧ w'.classOf o = x.product) ∨
      v = .null ∧ ∃ carrier w₁ w₂ creation, w.Grows w₁ ∧
        x.createWith (Calls.nested depth) carrier w₁ = (.ok creation, w₂) ∧ w₂.Grows w' ∧
          creation.object? = none := by
  obtain ⟨carrier, w₁, w₂, creation, hfirst, hcreate, hlast, rfl⟩ := build_received hsource hl h
  cases hobject : creation.object? with
  | none =>
    refine .inr ⟨?_, carrier, w₁, w₂, creation, hfirst, hcreate, hlast, hobject⟩
    rw [BuildStep.received, hobject]
    rfl
  | some o =>
    have hclass : w'.classOf o = x.product := by
      rw [hx]
      exact hlast.classOf (hx ▸ createWith_class hcreate hobject)
    have hinstance : w'.isInstance o step.fieldType = true := by
      rw [World.isInstance, hclass, Schema.isAssignable_eq (build_grows h).schema hdeclares]
      exact hfits
    refine .inl ⟨o, ?_, hclass⟩
    rw [BuildStep.received, hobject,
      Option.filter_some_pos (p := (w'.isInstance · step.fieldType)) hinstance]
    rfl

/-- A field that is built directly has an object of the class that is named. -/
theorem build_direct {operands : List Operand} (hsource : step.source = .direct t k operands)
    (h : step.build (Calls.nested depth) cs w = (.ok (v, cs'), w')) :
    ∃ o, v = .object o ∧ w'.classOf o = t := by
  rw [BuildStep.build, hsource] at h
  obtain ⟨values, w₁, -, h⟩ := bind_eq_ok_iff.mp h
  obtain ⟨o, w₂, hconstruct, h⟩ := bind_eq_ok_iff.mp h
  obtain ⟨hv, rfl⟩ := pure_eq_ok_iff.mp h
  obtain ⟨rfl, -⟩ := Prod.mk.inj hv
  exact ⟨o, rfl, (construct_grows hconstruct).2⟩

/-- So has one whose constructor takes a carrier. -/
theorem build_withCarrier {source : CarrierSource} {c : ClassId}
    (hsource : step.source = .withCarrier (.cls c) k source)
    (h : step.build (Calls.nested depth) cs w = (.ok (v, cs'), w')) :
    ∃ o, v = .object o ∧ w'.classOf o = .cls c := by
  rw [BuildStep.build, hsource] at h
  obtain ⟨⟨carrier, cs₁⟩, w₁, -, h⟩ := bind_eq_ok_iff.mp h
  obtain ⟨o, w₂, hconstruct, h⟩ := bind_eq_ok_iff.mp h
  obtain ⟨hv, rfl⟩ := pure_eq_ok_iff.mp h
  obtain ⟨rfl, -⟩ := Prod.mk.inj hv
  obtain ⟨w₃, w₄, -, hrun, hgrows⟩ := withParameters_eq_ok hconstruct
  exact ⟨o, rfl, hgrows.classOf (construct_grows hrun).2⟩

end

end Run

end RecordForge
