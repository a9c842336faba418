import RecordForge.Proofs.Access.WrapperFields

/-!
# Owned fields

A field whose type is a mapped class that is shared by reference is *owned*: each constructor of the
implementation has one step that builds it. A step that creates an object itself leaves a fault to the
creation around it, so the field of a new instance holds an object. A step that turns to a descriptor
absorbs the fault: the field is null exactly if the creation there has failed, of which the listener has
been told in the course of the creation of the instance (`World.owned_fields`).

This says nothing about bodies of users, which are assumed to leave the field as it is.
-/

namespace RecordForge

open Run

/-! ## Steps that turn to a descriptor -/

/-- A step turns to the published descriptor of a type, and the creation there fails. The listener of
the descriptor is told of it, after all that observers have seen in `w`, and before what they see until
`w'`. -/
inductive World.Miscarries (w : World) (registry : Registry) (F : Ty) (depth : Nat) (m : Situation)
    (w' : World) : Prop
  | intro {e : DescriptorId} {x : Descriptor} {k : Nat} {args : List Value} {w₁ w₂ : World}
      {f : Fault} {earlier later : List Event} (hc : registry.cached? F = some e)
      (hx : w.descriptors[e]? = some x)
      (hs : m.Starts ⟨w₁, .construct x.product k args, m.building⟩)
      (hfailed : x.guarded (Calls.nested depth) k args w₁ = (.ok (.failed f), w₂))
      (htold : w₂.events = x.failure (w.schema.name F) f :: (earlier ++ w.events))
      (hlater : w'.events = later ++ w₂.events)

section
variable {w w' : World} {depth : Nat} {step : BuildStep} {cs cs' : Carriers} {v : Value}

/-- A step that turns to a descriptor starts a creation there, and builds what comes of it. -/
theorem BuildStep.build_guarded {l : LookupId} {source : CarrierSource}
    (hsource : step.source = .lookup l source)
    (h : step.build (Calls.nested depth) cs w = (.ok (v, cs'), w')) :
    ∃ x w₀, w.resolve l = .ok (x, w₀) ∧ ∀ k, x.factoryConstructor = some k →
      ∃ args w₁ creation w₂,
        (∀ o os, Situation.Starts ⟨w, .build o step cs, os⟩ ⟨w₁, .construct x.product k args, os⟩) ∧
        x.guarded (Calls.nested depth) k args w₁ = (.ok creation, w₂) ∧
        w.Grows w₁ ∧ w₂.Grows w' ∧ v = step.received w' creation := by
  rw [build, hsource] at h
  obtain ⟨x, w₀, hresolve, h⟩ := bind_eq_ok_iff.mp h
  obtain ⟨⟨carrier, cs₁⟩, w₁, htake, h⟩ := bind_eq_ok_iff.mp h
  obtain ⟨creation, w₂, hcreate, h⟩ := bind_eq_ok_iff.mp h
  rw [ask_bind] at h
  obtain ⟨hv, rfl⟩ := pure_eq_ok_iff.mp h
  obtain ⟨rfl, -⟩ := Prod.mk.inj hv
  -- the carrier holds the parameters of the step while the creation goes on, and is released after it
  have hresolve := resolve_eq_ok_iff.mp hresolve
  refine ⟨x, w₀, hresolve, fun k hk => ⟨x.given carrier, w₁.hold carrier step.parameters, creation,
    (x.createWith (Calls.nested depth) carrier (w₁.hold carrier step.parameters)).2,
    fun o os => .lookup hsource hresolve htake hk, ?_, ?_, ?_, rfl⟩⟩
  · rw [withParameters_run, end_inj] at hcreate
    have hguarded : x.createWith (Calls.nested depth) carrier =
        x.guarded (Calls.nested depth) k (x.given carrier) := by
      rw [Descriptor.createWith, hk]
      rfl
    rw [← hguarded]
    exact Prod.ext hcreate.1 rfl
  · have hresolved : w.Grows w₀ := Regime.growing.resolve trivial hresolve
    have htaken : w₀.Grows w₁ := .of_keeps
      (Regime.growing.keeps_take source trivial (Regime.carries_growing w₀ cs)) htake
    exact (hresolved.trans htaken).trans
      (Regime.leads_hold (G := Regime.growing) trivial trivial fun _ _ _ _ => trivial)
  · rw [withParameters_run, end_inj] at hcreate
    exact hcreate.2 ▸ Regime.leads_release (G := Regime.growing) trivial trivial

end

/-! ## Where values come from -/

/-- A source gives instances of a class to a field of a type: it creates them itself, or turns to the
published descriptor of the type. -/
inductive World.Supplies (w : World) (reg : RegistryId) (registry : Registry) (F : Ty) (n : ClassId) :
    Source → Prop
  | creates {source : Source} (ht : source.target? = some (.cls n)) : Supplies w reg registry F n source
  | asks {l : LookupId} {carrier : CarrierSource} {e : DescriptorId} {x : Descriptor}
      (hl : (w.lookups[l]?).map Lookup.question = some (F, reg)) (hc : registry.cached? F = some e)
      (hx : w.descriptors[e]? = some x) (hk : x.factoryConstructor = some factoryIndex)
      (htype : x.type = F) (hproduct : x.product = .cls n) :
      Supplies w reg registry F n (.lookup l carrier)

/-- The instances of a class can stand where a type is expected. -/
structure Schema.Suits (s : Schema) (F : Ty) (n : ClassId) : Prop where
  cls : s.Declares (.cls n)
  type : s.Declares F
  fits : s.isAssignable (.cls n) F = true

theorem Schema.Suits.isInstance {w w' : World} {F : Ty} {n : ClassId} (h : w.schema.Suits F n)
    (he : w.schema.Extends w'.schema) {o : ObjectId} (ho : w'.classOf o = .cls n) :
    w'.isInstance o F = true := by
  rw [World.isInstance, ho, Schema.isAssignable_eq he h.cls]
  exact h.fits

namespace World.Supplies

variable {w b b' w' : World} {reg : RegistryId} {registry : Registry} {F : Ty} {n : ClassId}
variable {step : BuildStep} {cs cs' : Carriers} {depth : Nat} {v : Value}

/-- **What a step builds**: an instance of the class, or nothing, as the step turns to a descriptor
where the creation fails. -/
theorem outcome (h : w.Supplies reg registry F n step.source) (hsound : w.quiet.Sound)
    (hr : w.registries[reg]? = some registry) (hsuits : w.schema.Suits F n)
    (htype : step.fieldType = F) (hleads : w.Leads b) (hgrows : w.Grows b)
    (hbuild : step.build (Calls.nested depth) cs b = (.ok (v, cs'), b')) (hlater : b'.Grows w')
    (o : ObjectId) (os : List ObjectId) :
    (∃ y, v = .object y ∧ b'.classOf y = .cls n) ∧
        ¬(step.source.target? = none ∧ w.Miscarries registry F depth ⟨b, .build o step cs, os⟩ w') ∨
      v = .null ∧
        step.source.target? = none ∧ w.Miscarries registry F depth ⟨b, .build o step cs, os⟩ w' := by
  generalize hsource : step.source = source at h ⊢
  cases h with
  | creates ht =>
    -- no creation of its own is started, so there is none that could fail
    refine .inl ⟨?_, fun h => nomatch h.1.symm.trans ht⟩
    cases source with
    | lookup => cases ht
    | direct =>
      obtain rfl := Option.some.inj ht
      exact build_direct hsource hbuild
    | withCarrier =>
      obtain rfl := Option.some.inj ht
      exact build_withCarrier hsource hbuild
  | @asks l carrier e x hl hc hx hk hxtype hproduct =>
    obtain ⟨x', b₀, hresolve, hguarded⟩ := BuildStep.build_guarded hsource hbuild
    obtain ⟨_, hruns⟩ := hleads
    obtain rfl : x' = x := hsound.resolve_later hr hc hx hl hruns hresolve
    obtain ⟨args, w₁, creation, w₂, hstarts, hcreation, hbefore, hafter, rfl⟩ := hguarded _ hk
    rcases guarded_cases hcreation with ⟨y, rfl, hconstruct⟩ | ⟨f, w₃, rfl, hw₃, rfl⟩
    · -- the creation that the step starts is this one, so it has not failed
      have hclass : b'.classOf y = .cls n :=
        hafter.classOf ((construct_grows hconstruct).2.trans hproduct)
      have hinstance : b'.isInstance y step.fieldType = true := by
        rw [htype]
        exact hsuits.isInstance (hgrows.trans (build_grows hbuild)).schema hclass
      refine .inl ⟨⟨y, ?_, hclass⟩, ?_⟩
      · rw [BuildStep.received, show (Creation.created y).object? = some y from rfl,
          Option.filter_some_pos (p := (b'.isInstance · step.fieldType)) hinstance]
        rfl
      · rintro ⟨-, ⟨hc', hx', hs, hfailed, -, -⟩⟩
        obtain rfl := Option.some.inj (hc'.symm.trans hc)
        obtain rfl := Option.some.inj (hx'.symm.trans hx)
        obtain ⟨rfl, hact, -⟩ := Situation.mk.inj (hs.unique (hstarts o os) rfl)
        obtain ⟨-, rfl, rfl⟩ := Act.construct.inj hact
        cases hfailed.symm.trans hcreation
    · -- what observers see is only added to, so the failure stays behind what is seen later
      have hrun : w₁.Grows w₃ := hw₃ ▸
        ((Regime.growing.nested_lawful depth).construct x'.product factoryIndex trivial
          fun _ _ => trivial).1
      obtain ⟨earlier, hearlier⟩ := ((hgrows.trans hbefore).trans hrun).events
      obtain ⟨later, hlast⟩ := (hafter.trans hlater).events
      have hname : w₃.schema.name x'.type = w.schema.name F := by
        rw [hxtype]
        exact Schema.name_eq ((hgrows.trans hbefore).trans hrun).schema hsuits.type
      have htold : (w₃.observe (x'.failure (w₃.schema.name x'.type) f)).events =
          x'.failure (w.schema.name F) f :: (earlier ++ w.events) := by
        rw [World.observe, hname, hearlier]
      exact .inr ⟨rfl, rfl, .intro hc hx (hstarts o os) hcreation htold hlast.symm⟩

end World.Supplies

/-! ## The fields of an implementation -/

/-- A slot of the implementation of a class is for the field of an abstract property, and the type that
is chosen for the field is a mapped class that is shared by reference. -/
structure ClassDecl.OwnsField (d : ClassDecl) (s : Schema) (p : Provider) (t : Ty) (q : PropertyDecl)
    (F : Ty) (k : Nat) : Prop where
  property : q ∈ s.abstractProperties t
  chosen : ∃ m, p.Chooses s t q F m
  owns : p.owns s F = true
  field : ∃ f, d.layout[k]? = some f ∧ f.name = backingName q.name ∧ f.type = F

section
variable {w : Workshop} {s : Schema} {cache : List (Ty × DescriptorId)} {σ : Session} {t : Ty}
variable {base : ClassDecl} {i : Implementation} {f : PropertyField} {plan : FieldPlan}
variable {step : BuildStep}

namespace Implementation.Realizes

variable {f : ForgedProperty} (hi : i.Realizes w s cache σ t base)
include hi

/-- The construction parameters of a field are those of its property. -/
theorem parameters_eq (hf : f ∈ i.properties) :
    f.field.parameters = w.provider.parameters t f.field.property := by
  obtain ⟨q, -, j, hreal⟩ := hi.properties.mem hf
  obtain ⟨F, m, -, hfield⟩ := hreal.eq
  rw [hfield]

/-- A property with a plan has an owned field. -/
theorem ownsField (hf : f ∈ i.properties) (hfp : f.plan = some plan) :
    (i.decl s).OwnsField s w.provider t f.field.property f.field.fieldType f.field.slot := by
  obtain ⟨q, hq, j, hreal⟩ := hi.properties.mem hf
  obtain ⟨F, m, hchooses, hfield⟩ := hreal.eq
  refine ⟨?_, ⟨m, ?_⟩, (hi.plan_realizes hf hfp).owns, _, (hi.layout_slot hf).2, rfl, rfl⟩
  · rw [hfield]
    exact hq
  · rw [hfield]
    exact hchooses

/-- An abstract property whose field type is a mapped class that is shared by reference has a plan. -/
theorem exists_planned {q : PropertyDecl} {F : Ty} {m : Option ValueMember}
    (hq : q ∈ s.abstractProperties t) (hm : w.provider.Chooses s t q F m)
    (ho : w.provider.owns s F = true) : ∃ f ∈ i.properties, ∃ plan, f.plan = some plan ∧
      f.field.property = q ∧ f.field.fieldType = F := by
  obtain ⟨f, hf, j, hreal⟩ := hi.properties.exists_of_mem hq
  obtain ⟨F', m', hchooses, hfield⟩ := hreal.eq
  obtain ⟨rfl, -⟩ := hchooses.unique hm
  have hplan := hreal.plan
  cases hfp : f.plan with
  | none =>
    rw [hfp, hfield] at hplan
    cases ho.symm.trans hplan.not_owns
  | some plan => exact ⟨f, hf, plan, hfp, by rw [hfield], by rw [hfield]⟩

/-- So it has an owned field. -/
theorem exists_owned {q : PropertyDecl} {F : Ty} {m : Option ValueMember}
    (hq : q ∈ s.abstractProperties t) (hm : w.provider.Chooses s t q F m)
    (ho : w.provider.owns s F = true) : ∃ k ∈ i.owned, (i.decl s).OwnsField s w.provider t q F k := by
  obtain ⟨f, hf, plan, hfp, rfl, rfl⟩ := hi.exists_planned hq hm ho
  exact ⟨_, List.mem_filterMap.mpr ⟨f, hf, by rw [hfp]; rfl⟩, hi.ownsField hf hfp⟩

end Implementation.Realizes

/-- A step creates an object itself if the type of the field is not abstract. Without construction
parameters, so does the step of the default constructor. -/
theorem FieldPlan.Realizes.target?_ne_none (hplan : FieldPlan.Realizes w s cache σ f (some plan))
    (hstep : step = plan.default ∨ plan.factory = some step)
    (h : s.isAbstract f.fieldType = false ∨ f.parameters = none ∧ step = plan.default) :
    step.source.target? ≠ none := by
  have hconcrete : s.isAbstract f.fieldType = false → step.source.target? ≠ none := fun ha => by
    rw [hplan.target?_of_step hstep ha]
    nofun
  rcases h with ha | ⟨hparams, rfl⟩
  · exact hconcrete ha
  · cases hplan with
    | built _ ha => exact hconcrete ha
    | delegated _ _ _ _ _ _ hsource =>
      rw [hsource, hparams]
      nofun

end

namespace Scene

variable {S : Scene} {r : RegistryId} {registry : Registry} {t : Ty} {d : DescriptorId}
variable {h₀ : Heap} {f : PropertyField} {plan : FieldPlan} {step : BuildStep}

/-- The steps of a plan give instances of a class that suits the field. -/
theorem Sound.supplies (h : S.Sound) (hr : S.world.registries[r]? = some registry)
    (hc : registry.cached? t = some d)
    (hplan : FieldPlan.Realizes (registry.workshop r h₀) S.world.schema (S.entries r registry)
      S.world.session f (some plan))
    (hneeds : S.world.schema.isAbstract f.fieldType = true →
      registry.provider.Needs S.world.schema t f.fieldType)
    (hstep : step = plan.default ∨ plan.factory = some step) :
    ∃ n, S.world.schema.Suits f.fieldType n ∧
      S.world.Supplies r registry f.fieldType n step.source := by
  obtain ⟨dF, hdF, -⟩ := Provider.exists_of_owns hplan.owns
  obtain ⟨nF, hF, -⟩ := Schema.lt_size_of_decl? hdF
  have hdeclares := Schema.declares_of_decl? hdF
  cases ha : S.world.schema.isAbstract f.fieldType with
  | false =>
    have ht := hplan.target?_of_step hstep ha
    have hfits : S.world.schema.isAssignable (.cls nF) f.fieldType = true := by
      rw [hF, Schema.isAssignable, beq_self_eq_true, Bool.true_or]
    exact ⟨nF, ⟨hF ▸ hdeclares, hdeclares, hfits⟩, .creates (hF ▸ ht)⟩
  | true =>
    cases hplan with
    | built _ ha' => cases ha.symm.trans ha'
    | @delegated l e x source _ _ hl hd hx hproduct hsource =>
      obtain ⟨e', hc'⟩ := (h.registries hr).exists_cached hc (hneeds ha)
      obtain rfl := Option.some.inj (hd.symm.trans (SoundAt.known_of_cached hc'))
      obtain ⟨c, i, h₁, report, hdecl, -, hi, hp, hdesc⟩ :=
        (h.registries hr).exists_implementation hc' hx ha
      obtain ⟨n, hn, -⟩ := Schema.lt_size_of_decl? hp
      have htype : x.type = f.fieldType := by rw [hdesc]; exact hi.type
      have hk : x.factoryConstructor = some factoryIndex := by rw [hdesc]; rfl
      have hfits : S.world.schema.isAssignable x.product f.fieldType = true := by
        rw [← hi.type]
        exact Implementation.isAssignable (by rw [hi.type, hdecl]; rfl) hp
      have hasks : ∀ carrier, S.world.Supplies r registry f.fieldType n (.lookup l carrier) :=
        fun carrier => .asks hl hc' hx hk htype hn
      refine ⟨n, ⟨hn ▸ Schema.declares_of_decl? hp, hdeclares, hn ▸ hfits⟩, ?_⟩
      rcases hstep with rfl | hstep
      · -- without construction parameters, the implementation is created without a lookup
        rw [hsource]
        cases f.parameters with
        | none => exact .creates (congrArg some hn)
        | some vs => exact hasks .transient
      · obtain rfl := Option.some.inj hstep
        exact hasks .argument

end Scene

/-! ## New instances -/

/-- A creation runs the constructor with a carrier exactly if it is given one. -/
theorem Implementation.takesCarrier_eq {V : Workshop} {S : Schema} {i : Implementation}
    {report : Report} {w w₁ : World} {x : Descriptor} {given : Option CarrierId} {act : Act} {o : ObjectId}
    {args : List Value} {p : ConstructionPlan} {os os' : List ObjectId}
    (hx : x = i.descriptor V report x.product) (hd : w.schema.decl? x.product = some (i.decl S))
    (hact : act ∈ x.creating given)
    (hstarts : Situation.Starts ⟨w, act, os⟩ ⟨w₁, .body o args (.plan p), os'⟩) :
    p.takesCarrier = given.isSome := by
  have hctors : w.schema.constructors x.product = (i.decl S).constructors := by
    rw [Schema.constructors, hd]
    rfl
  obtain ⟨values, rfl⟩ : ∃ values,
      act = .construct x.product (given.elim defaultIndex fun _ => factoryIndex) values := by
    rw [Option.mem_def, hx] at hact
    cases given <;> exact ⟨_, (Option.some.inj hact).symm⟩
  generalize hbody : ConstructorBody.plan p = body at hstarts
  cases hstarts with
  | construct hctor =>
    have hget := (Schema.constructorFor_eq_ok_iff.mp hctor).1
    rw [hctors] at hget
    cases given <;>
      · obtain rfl := Option.some.inj hget
        exact congrArg ConstructionPlan.takesCarrier (ConstructorBody.plan.inj hbody)

namespace World

variable {w w₁ w' : World} {c : ClassId} {d : ClassDecl} {o : ObjectId} {depth : Nat} {act : Act}
variable {p : ConstructionPlan} {args : List Value} {step : BuildStep} {reg : RegistryId}
variable {registry : Registry} {F : Ty} {n : ClassId}

/-- **What a new instance holds** in a slot for which there is a step. -/
theorem Assembles.owned (h : w.Assembles c d act o p depth w₁ args w') (hw : w.Hosts c d)
    (hr : w.registries[reg]? = some registry) (hk : d.ownStart ≤ step.slot) (hstep : step ∈ p.steps)
    (hsuits : w.schema.Suits F n) (htype : step.fieldType = F)
    (hsupplies : w.Supplies reg registry F n step.source)
    (hbodies : ∀ v, Situation.Leaves (Lasts (· = v) o step.slot) ⟨w, act, []⟩) :
    ∃ v cs b, w'.heap.field? o step.slot = some v ∧
      (v = .null ∨ ∃ y, v = .object y ∧ w'.isInstance y F = true) ∧
        Situation.Meets ⟨w, act, []⟩ ⟨b, .build o step cs, [o]⟩ ∧
          (v = .null ↔ step.source.target? = none ∧
            w.Miscarries registry F depth ⟨b, .build o step cs, [o]⟩ w') := by
  obtain ⟨b, b₁, b₂, cs, cs', v, hstarts, hb, htends, hgrows, hcs, hbuild, hset, hafter, hlasts⟩ :=
    h.exists_filled hw hk hstep
  obtain ⟨heap, hstore, rfl⟩ := World.setField_eq_ok_iff.mp hset
  obtain ⟨hb₁, -, hv, -⟩ := hb.next (Regime.keeps_build (Regime.tidy.nested_lawful depth) hb.inv
    hcs (hb.steps_known h.plan step hstep)) hbuild
  obtain ⟨-, u, hu, hsame⟩ := Heap.store_spec hb₁.tidy.heap hv hstore
  have hsame : b₁.heap.Alike (World.heap { b₁ with heap }) v u := hsame
  obtain ⟨_, hu', rfl⟩ := hlasts (· = u) (hbodies u) u hu rfl
  have hbuilt : w.Grows b₁ := hgrows.trans (build_grows hbuild)
  have hlater : b₁.Grows w' := (Regime.growing.store trivial trivial trivial hset).trans hafter
  have hmeets : Situation.Meets ⟨w, act, []⟩ ⟨b, .build o step cs, [o]⟩ :=
    (Situation.Meets.single h.starts).tail hstarts
  rcases hsupplies.outcome hw.sound hr hsuits htype (htends.leads hw.sound) hgrows hbuild hlater o
    [o] with ⟨⟨y, rfl, hclass⟩, hnot⟩ | ⟨rfl, hfailed⟩
  · -- the field holds the object, or a copy of it, which is of the same class
    obtain ⟨z, rfl⟩ := Value.IsObject.alike ⟨y, rfl⟩ hsame
    obtain ⟨_, hy, hz⟩ := World.classOf_of_alike hsame
    obtain rfl := Value.object.inj hy
    have hclass' : w'.classOf z = .cls n := hafter.classOf (hz.trans hclass)
    have hinstance := hsuits.isInstance (hbuilt.trans hlater).schema hclass'
    exact ⟨_, cs, b, hu', .inr ⟨z, rfl, hinstance⟩, hmeets, iff_of_false nofun hnot⟩
  · cases hsame
    exact ⟨_, cs, b, hu', .inl rfl, hmeets, iff_of_true rfl hfailed⟩

/-- **What the owned fields of an instance hold.** In a world that has come about from nothing, an
abstract class has a descriptor. Its implementation has an owned field for each abstract property whose
field type is a mapped class that is shared by reference, and for no other.

If an instance is created, and the bodies of users that are run in the course of it leave an owned field
as it is, then the field holds an object that fits its type, or null. It is not null if the type is not
abstract, nor if there are neither construction parameters nor a carrier. It is null exactly if the step
that has built the field turns to a descriptor, and the creation there has failed, of which the listener
has been told meanwhile. -/
theorem owned_fields {w : World} (harises : w.Arises) {reg : RegistryId} {registry : Registry}
    (hr : w.registries[reg]? = some registry) {t : Ty} {e : DescriptorId} {x : Descriptor}
    (hc : registry.cached? t = some e) (hx : w.descriptors[e]? = some x)
    (ht : w.schema.isAbstract t = true) {given : Option CarrierId}
    (hgiven : ∀ k ∈ given, (Value.carrier k).Known w.heap) :
    ∃ d slots, w.schema.decl? x.product = some d ∧ d.owned = some slots ∧
      (∀ q ∈ w.schema.abstractProperties t, ∀ F m, registry.provider.Chooses w.schema t q F m →
        registry.provider.owns w.schema F = true →
          ∃ k ∈ slots, d.OwnsField w.schema registry.provider t q F k) ∧
      ∀ k ∈ slots, ∃ q F, d.OwnsField w.schema registry.provider t q F k ∧
        ∀ depth o w', Run.create depth x given w = (.ok (.created o), w') →
          (∀ act ∈ x.creating given, ∀ v, Situation.Leaves (Lasts (· = v) o k) ⟨w, act, []⟩) →
            ∃ v, w'.heap.field? o k = some v ∧
              (v = .null ∨ ∃ y, v = .object y ∧ w'.isInstance y F = true) ∧
              (w.schema.isAbstract F = false ∨
                registry.provider.parameters t q = none ∧ given = none → v ≠ .null) ∧
              ∃ act ∈ x.creating given, ∃ step cs b n, step.slot = k ∧
                Situation.Meets ⟨w, act, []⟩ ⟨b, .build o step cs, [o]⟩ ∧
                  (v = .null ↔ step.source.target? = none ∧
                    w.Miscarries registry F n ⟨b, .build o step cs, [o]⟩ w') := by
  obtain ⟨base, i, h₀, report, c, hproduct, hi, hdesc, hw⟩ := harises.exists_implementation hr hc hx ht
  have hd : w.schema.decl? x.product = some (i.decl w.schema) := by
    rw [hproduct]
    exact hw.cls
  refine ⟨i.decl w.schema, i.owned, hd, rfl, fun q hq F m hm ho => hi.exists_owned hq hm ho,
    fun k hk => ?_⟩
  obtain ⟨f, hf, hslot⟩ := List.mem_filterMap.mp hk
  obtain ⟨plan, hfp, rfl⟩ := Option.map_eq_some_iff.mp hslot
  refine ⟨f.field.property, f.field.fieldType, hi.ownsField hf hfp, fun depth o w' hrun hbodies => ?_⟩
  obtain ⟨act, hact, p, n, w₁, args, hassembles⟩ := hw.exists_assembles hproduct hgiven hrun
  have htakes := Implementation.takesCarrier_eq hdesc hd hact hassembles.starts
  obtain ⟨ctor, hctor, hp⟩ := hassembles.plan
  obtain ⟨step, hstep, hplanned⟩ := hi.exists_planned_step hf hfp hctor hp
  have hrealizes := hi.plan_realizes hf hfp
  have hof := hplanned.imp And.right And.right
  obtain ⟨source, rfl⟩ := hrealizes.step_eq hof
  have howns := hi.ownsField hf hfp
  obtain ⟨m, hchosen⟩ := howns.chosen
  obtain ⟨a, hsuits, hsupplies⟩ := hw.sound.supplies hr hc hrealizes
    (fun ha => ⟨ht, _, howns.property, m, hchosen, howns.owns, ha⟩) hof
  have hown : (i.decl w.schema).ownStart ≤ (f.field.step source).slot := (hi.layout_slot hf).1
  obtain ⟨v, cs, b, hv, hfits, hmeets, hnull⟩ := hassembles.owned hw hr hown hstep hsuits rfl
    hsupplies (hbodies act hact)
  refine ⟨v, hv, hfits, fun hdirect hvnull => ?_, act, hact, _, cs, b, n, rfl, hmeets, hnull⟩
  refine hrealizes.target?_ne_none hof (hdirect.imp_right fun ⟨hparams, hnone⟩ => ?_)
    (hnull.mp hvnull).1
  -- without a carrier it is the default constructor that has been run
  rw [hnone, Option.isSome_none] at htakes
  exact ⟨(hi.parameters_eq hf).trans hparams,
    (hplanned.resolve_right fun h => nomatch htakes.symm.trans h.1).2⟩

end World

/-! ### A scene -/

namespace Scene

/-- Drafts of a class, of an abstract class whose constructor fails, and of an abstract class with a
property for each. The second has a construction parameter. -/
def watchDrafts : List ClassDraft :=
  [{ name := "Watch.Spring", members := [.defaultConstructor] },
   { name := "Watch.Gear", isAbstract := true
     members := [.constructor
       { params := [.carrier], isPublic := true, body := .routine [.throw "worn"] }] },
   { name := "Watch.Case", isAbstract := true
     members := [.property { World.forestProperty (.cls 0) with name := "Spring" },
       .property { World.forestProperty (.cls 1) with
         name := "Gear", attributes := [.parameters [.ofBool true]] },
       .defaultConstructor] }]

/-- The world in which `Watch.Case` has been implemented, and `Watch.Gear` with it. -/
def watch : World := asked watchDrafts (.cls 2)

theorem watch_arises : watch.Arises := by
  have hdeclare : CanDeclare {} watchDrafts := by decide +kernel
  exact asked_arises hdeclare (by decide) (by decide) (by decide +kernel) (.cls 2)

/-- Whether an act does nothing but throw, if it runs a body of a user. -/
def onlyThrows : Act → Bool
  | .perform _ (.throw _ :: _) => true
  | act => !act.isUser

/-- Such a body changes nothing. -/
theorem onlyThrows_run {act : Act} (h : onlyThrows act = true) (hu : act.isUser = true) (c : Calls)
    (w : World) : (act.run c w).2 = w := by
  unfold onlyThrows at h
  split at h
  · rfl
  · rw [hu] at h
    cases h

/-- The bodies of users that are run when a `Watch.Case` is created change nothing. -/
theorem watch_leaves {R : World → World → Prop} (hR : ∀ w, R w w) {x : Descriptor}
    (hx : watch.descriptors[1]? = some x) :
    ∀ act ∈ x.creating none, Situation.Leaves R ⟨watch, act, []⟩ := by
  have hsurvey : (watch.descriptors[1]?).all (fun x => (x.creating none).all fun act =>
      Situation.survey (Calls.nested 10) (fun m => onlyThrows m.act) 10 ⟨watch, act, []⟩) = true := by
    decide +kernel
  intro act hact m hm hu depth
  have hthrows := (Situation.survey_meets (World.all_creating hsurvey hx act hact) hm).2
  rw [onlyThrows_run hthrows hu]
  exact hR _

/-- A watch comes with a spring, and without a gear: the creation of one has failed. -/
theorem owned_fields_watch : ∃ registry x w, watch.registries[0]? = some registry ∧
    watch.descriptors[1]? = some x ∧
    (∀ depth, 6 ≤ depth → Run.create depth x none watch = (.ok (.created 0), w)) ∧
    (∃ y, w.heap.field? 0 0 = some (.object y) ∧ w.isInstance y (.cls 0) = true) ∧
    w.heap.field? 0 1 = some .null ∧ ∃ step cs b n, step.slot = 1 ∧
      watch.Miscarries registry (.cls 1) n ⟨b, .build 0 step cs, [0]⟩ w := by
  obtain ⟨registry, x, hr, hc, hx, -, hproduct⟩ := exists_published (w := watch) (r := 0) (t := .cls 2)
    (e := 1) (p := .cls 4) (by decide +kernel) (by decide +kernel)
  obtain ⟨w, hcreate, hworn⟩ := World.create_leaves_of_depth none 6 (.created 0)
    (fun w => w.heap.field? 0 1 = some .null) (by decide +kernel) hx
  have hworn : w.heap.field? 0 1 = some .null := of_decide_eq_true hworn
  have hnone : ∀ k ∈ (none : Option CarrierId), (Value.carrier k).Known watch.heap :=
    fun _ hk => nomatch hk
  obtain ⟨d, slots, hd, hslots, -, hfields⟩ :=
    World.owned_fields watch_arises hr hc hx (by decide +kernel) hnone
  have hdecl : (watch.schema.decl? (.cls 4)).map (fun d => (d.owned, d.layout.map FieldDecl.type)) =
      some (some [0, 1], [.cls 0, .cls 1]) := by
    decide +kernel
  rw [← hproduct, hd] at hdecl
  obtain ⟨howned, htypes⟩ := Prod.mk.inj (Option.some.inj hdecl)
  obtain rfl := Option.some.inj (hslots.symm.trans howned)
  have htype : ∀ {q F k}, d.OwnsField watch.schema registry.provider (.cls 2) q F k →
      (d.layout.map FieldDecl.type)[k]? = some F := fun h => by
    obtain ⟨f, hf, -, rfl⟩ := h.field
    rw [List.getElem?_map, hf]
    rfl
  have hleaves : ∀ {k}, ∀ act ∈ x.creating none, ∀ v,
      Situation.Leaves (World.Lasts (· = v) 0 k) ⟨watch, act, []⟩ :=
    fun act hact v => watch_leaves World.Lasts.refl hx act hact
  have hcreated := hcreate 6 (Nat.le_refl 6)
  refine ⟨registry, x, w, hr, hx, hcreate, ?_, hworn, ?_⟩
  · obtain ⟨q, F, howns, hfield⟩ := hfields 0 List.mem_cons_self
    obtain rfl : Ty.cls 0 = F := Option.some.inj ((htypes ▸ htype howns :))
    obtain ⟨v, hv, hfits, hobject, -⟩ := hfield 6 0 w hcreated hleaves
    obtain ⟨y, rfl, hinstance⟩ := hfits.resolve_left (hobject (.inl (by decide +kernel)))
    exact ⟨y, hv, hinstance⟩
  · obtain ⟨q, F, howns, hfield⟩ := hfields 1 (List.mem_cons_of_mem _ List.mem_cons_self)
    obtain rfl : Ty.cls 1 = F := Option.some.inj ((htypes ▸ htype howns :))
    obtain ⟨v, hv, -, -, act, -, step, cs, b, n, hslot, -, hnull⟩ := hfield 6 0 w hcreated hleaves
    obtain rfl := Option.some.inj (hv.symm.trans hworn)
    exact ⟨step, cs, b, n, hslot, (hnull.mp rfl).2⟩

end Scene

end RecordForge
