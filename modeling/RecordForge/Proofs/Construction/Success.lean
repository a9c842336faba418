import RecordForge.Proofs.Construction.Survey
import RecordForge.Run.Operations

/-!
# Creations succeed

A plan that was made when a class was implemented always runs: in the course of a creation every act
ends, unless a user makes it fail, or a registry that is asked is gone
(`Scene.creates`). So no act ever finds a class that is abstract, a constructor that is not there or
takes other arguments, an argument that cannot be loaded, a slot that is not there, or a field whose
type has no descriptor.

What carries the proof is the order of the classes. The plan of a class runs constructors of earlier
classes only, so the induction is on the class (`constructors_safe`); for one class the proof follows
the plan, step by step.
-/

namespace RecordForge

open Run

/-- An act ends and leaves the objects that are being built as they are, and every act that is met in
its course ends. -/
structure Situation.Safe (m : Situation) : Prop where
  ends : ∃ w, m.Ends w ∧ m.world.Spares m.building w
  succeeds : m.Succeeds

open Situation

/-- The constructors of a class run on objects that have its fields, unless users make them fail. -/
def ConstructorsSafe (n c : ClassId) : Prop :=
  ∀ {w : World} {d : ClassDecl} {ctor : ConstructorDecl} {o : ObjectId} {args : List Value}
    {os : List ObjectId}, w.Ready n → w.schema.class? c = some d → ctor ∈ d.constructors →
    w.HasSlots o d.layout.length → o ∉ os → w.HasAll os →
    Cooperates ⟨w, .body o args ctor.body, os⟩ → Safe ⟨w, .body o args ctor.body, os⟩

/-- A constructor creates an object of a class, that is shared by reference. -/
structure World.Constructs (w : World) (t : Ty) (k : Nat) (args : List Value) (os : List ObjectId)
    (target : ObjectId) (w' : World) : Prop where
  returns : Returns (fun calls => calls.construct t k args) w target w'
  type : w'.classOf target = t
  reference : w'.heap.isByValue (.object target) = false
  spares : w.Spares os w'
  succeeds : Succeeds ⟨w, .construct t k args, os⟩

/-- A step makes an object for its field. -/
structure World.Builds (w : World) (o : ObjectId) (step : BuildStep) (cs : Carriers)
    (os : List ObjectId) (t : Ty) (target : ObjectId) (cs' : Carriers) (w' : World) : Prop where
  returns : Returns (fun calls => step.build calls cs) w (.object target, cs') w'
  type : w'.classOf target = t
  reference : w'.heap.isByValue (.object target) = false
  spares : w.Spares os w'
  starts : ∃ m, Starts ⟨w, .build o step cs, os⟩ m ∧ m.Succeeds

/-- The field of a step holds an object, that has a receiver if the field asks to be told its
property. -/
def World.Built (w : World) (o : ObjectId) (step : BuildStep) : Prop :=
  ∃ target b, w.field o step.slot = .ok (.object target) ∧ w.classOf target = .cls b ∧
    w.schema.Declares step.fieldType ∧
      (w.Asks step.fieldType → (w.schema.receiver? (.cls b)).isSome = true)

variable {w w' w₁ w₂ : World} {n b c : ClassId} {d : ClassDecl} {t : Ty} {k : Nat} {o : ObjectId}
variable {os : List ObjectId} {args : List Value} {ctor : ConstructorDecl} {cs cs' : Carriers}
variable {step : BuildStep} {p : ConstructionPlan}

theorem World.CanConstruct.mono {m : Nat} (h : w.CanConstruct c t k m)
    (he : w.schema.Extends w'.schema) : w'.CanConstruct c t k m := by
  obtain ⟨b, d, ctor, rfl, hlt, hd, hrest⟩ := h
  exact ⟨b, d, ctor, rfl, hlt, he.classes hd, hrest⟩

/-- What is built stays built as long as the object is left as it is. -/
theorem World.Built.mono (h : w.Built o step) (hw : w.Ready n) (hl : w.Leads w')
    (hf : w'.heap.field? o step.slot = w.heap.field? o step.slot) : w'.Built o step := by
  obtain ⟨target, b, hfield, hclass, hdeclares, hreceiver⟩ := h
  have he := hl.evolves hw
  have hb : w.schema.Declares (.cls b) := by
    cases hi : w.heap.object? target with
    | none => simp [World.classOf, Schema.classOf, hi] at hclass
    | some i =>
      have hwithin : w.schema.Declares (.cls i.cls) := hw.sound.heap hi
      have hcls : w.classOf target = .cls i.cls := by simp [World.classOf, Schema.classOf, hi]
      rwa [← hclass, hcls]
  refine ⟨target, b, ?_, World.classOf_of_grows he.heap hclass,
    hdeclares.mono he.schema, fun hasks => ?_⟩
  · rw [World.field_eq_ok_iff] at hfield ⊢
    rw [hf, hfield]
  · rw [Schema.receiver?_eq he.schema hw.sound.proper.closed hb]
    rw [World.Asks, Schema.implementsInterface_eq he.schema hdeclares] at hasks
    exact hreceiver hasks

/-- An object that fits is received. -/
theorem BuildStep.received_created (step : BuildStep) (h : w.isInstance o step.fieldType = true) :
    step.received w (.created o) = .object o := by
  rw [received, Creation.object?, Option.filter_some_pos (p := (w.isInstance · step.fieldType)) h]
  rfl

/-! ## Constructors of earlier classes -/

section
variable (hsafe : ∀ b, b < c → ConstructorsSafe n b)
include hsafe

/-- Running a constructor of an earlier class. -/
theorem chain_safe (hw : w.Ready n) (hlt : b < c) (hd : w.schema.class? b = some d)
    (hk : d.constructors[k]? = some ctor) (hargs : ctor.params.length = args.length)
    (ho : w.HasSlots o d.layout.length) (hfresh : o ∉ os) (hall : w.HasAll os)
    (hcoop : Cooperates ⟨w, .chain (.cls b) k o args, os⟩) :
    Safe ⟨w, .chain (.cls b) k o args, os⟩ := by
  have hctor : w.schema.constructorFor (.cls b) k args.length = .ok ctor := by
    refine Schema.constructorFor_eq_ok_iff.mpr ⟨?_, hargs⟩
    rw [Schema.constructors, Schema.decl?, hd]
    exact hk
  have hstart : Starts ⟨w, .chain (.cls b) k o args, os⟩ ⟨w, .body o args ctor.body, os⟩ :=
    .chain hctor
  obtain ⟨⟨w', hends, hspares⟩, hsucceeds⟩ := hsafe b hlt hw hd (List.mem_of_getElem? hk) ho hfresh
    hall (hcoop.starts hstart)
  have hends : Ends ⟨w, .chain (.cls b) k o args, os⟩ w' := .chain hctor hends
  exact ⟨⟨w', hends, hspares⟩, .of_start ⟨w', hends⟩ hstart rfl hsucceeds⟩

/-- Creating an instance of an earlier class. -/
theorem construct_safe (hw : w.Ready n) (hc : w.CanConstruct c t k args.length)
    (hall : w.HasAll os) (hcoop : Cooperates ⟨w, .construct t k args, os⟩) :
    ∃ target w', w.Constructs t k args os target w' := by
  obtain ⟨b, d, ctor, rfl, hlt, hd, habs, hvalue, hk, hargs⟩ := hc
  have hctor : w.schema.constructorFor (.cls b) k args.length = .ok ctor := by
    refine Schema.constructorFor_eq_ok_iff.mpr ⟨?_, hargs⟩
    rw [Schema.constructors, Schema.decl?, hd]
    exact hk
  obtain ⟨⟨o, w₁⟩, hnew⟩ : ∃ ow, w.newObject (.cls b) = some ow := by
    rw [World.newObject, hd]
    exact ⟨_, rfl⟩
  have hleads : w.Leads w₁ := (World.Works.newObject hw.sound.proper hw.sound.heap hnew).leads
  have hw₁ := hw.leads hleads
  obtain ⟨b', d', hb', hd', hsame, rfl, hadds, i, hi, hshape⟩ := World.newObject_spec hnew
  obtain rfl := Ty.cls.inj hb'
  obtain rfl := Option.some.inj (hd.symm.trans hd')
  have hspares : w.Spares os w₁ := by
    intro o ho
    obtain ⟨i, hi⟩ := Heap.exists_object? (hall o ho)
    rw [hi]
    exact hadds.old hi
  have hslots : w₁.HasSlots w.heap.objects.size d.layout.length :=
    ⟨i, hi, Nat.le_of_eq (congrArg Shape.size hshape).symm⟩
  have hstart : Starts ⟨w, .construct (.cls b) k args, os⟩
      ⟨w₁, .body w.heap.objects.size args ctor.body, os⟩ := .construct hctor hnew
  obtain ⟨⟨w', hends, hspares'⟩, hsucceeds⟩ := hsafe b hlt hw₁ (hsame ▸ hd)
    (List.mem_of_getElem? hk) hslots (fun ho => Nat.lt_irrefl _ (hall _ ho))
    (hall.mono hadds.grows) (hcoop.starts hstart)
  have hreturns : Returns (fun calls => calls.construct (.cls b) k args) w w.heap.objects.size w' :=
    .construct (by simp [Schema.isClass, Schema.decl?, hd]) (by simp [Schema.isAbstract, Schema.decl?, hd, habs])
      hctor hnew hends
  have hgrows : w₁.heap.Grows w'.heap := ((World.Leads.of_ends hw₁ hends).evolves hw₁).heap
  obtain ⟨i', hi', hshape'⟩ := hgrows.objects hi
  have hshape' : i'.shape = ⟨b, d.isValueType, d.layout.length⟩ := hshape'.trans hshape
  have hclass : i'.cls = b := congrArg Shape.cls hshape'
  have hbyValue : i'.byValue = false := (congrArg Shape.byValue hshape').trans hvalue
  refine ⟨w.heap.objects.size, w', hreturns, ?_, ?_, hspares.trans hspares', ?_⟩
  · rw [World.classOf, Schema.classOf, hi', ← hclass]
    rfl
  · rw [Heap.isByValue, hi']
    exact hbyValue
  · exact .of_start ⟨w', hreturns.map⟩ hstart rfl hsucceeds

/-- Creating an instance while a carrier holds parameters, and releasing the carrier. -/
theorem construct_release_safe (hw : w.Ready n) {carrier : CarrierId}
    {parameters : Option (List Value)} (hc : w.CanConstruct c t k 1) (hall : w.HasAll os)
    (hcoop : Cooperates ⟨w.hold carrier parameters, .construct t k [.carrier carrier], os⟩) :
    ∃ target w', (w.hold carrier parameters).Constructs t k [.carrier carrier] os target w' ∧
      (w'.release carrier parameters).classOf target = t ∧
      (w'.release carrier parameters).heap.isByValue (.object target) = false ∧
      w.Spares os (w'.release carrier parameters) ∧ w.Leads (w'.release carrier parameters) := by
  have hleads := World.Leads.hold hw carrier parameters
  have he := hleads.evolves hw
  obtain ⟨target, w', hconstructs⟩ := construct_safe hsafe (hw.leads hleads) (hc.mono he.schema)
    (hall.mono he.heap) hcoop
  have hends : Ends ⟨w.hold carrier parameters, .construct t k [.carrier carrier], os⟩ w' :=
    hconstructs.returns.map
  have hruns : (w.hold carrier parameters).Leads w' := .of_ends (hw.leads hleads) hends
  have hleads' := hleads.trans hruns
  have hlast := hleads'.trans (.release (hw.leads hleads') carrier parameters)
  refine ⟨target, w', hconstructs, ?_⟩
  cases parameters with
  | none => exact ⟨hconstructs.type, hconstructs.reference, hconstructs.spares, hlast⟩
  | some vs => exact ⟨hconstructs.type, hconstructs.reference, hconstructs.spares, hlast⟩

/-! ## Building fields -/

/-- A step makes an object of the class that it says, whichever way it does. -/
theorem Feasible.builds (hw : w.Ready n) (hf : w.Feasible c step t) (hall : w.HasAll os)
    (hcoop : Cooperates ⟨w, .build o step cs, os⟩) :
    ∃ target cs' w', w.Builds o step cs os t target cs' w' := by
  cases hf with
  | @direct k operands hs hc hl =>
    obtain ⟨values, hload, hlength⟩ := Operand.loadAll_eq_ok hl
    have hstart : Starts ⟨w, .build o step cs, os⟩ ⟨w, .construct t k values, os⟩ :=
      .direct hs hload
    obtain ⟨target, w', hconstructs⟩ := construct_safe hsafe hw (hlength ▸ hc) hall
      (hcoop.starts hstart)
    refine ⟨target, cs, w', ?_, hconstructs.type, hconstructs.reference, hconstructs.spares,
      _, hstart, hconstructs.succeeds⟩
    simp only [BuildStep.build, hs]
    exact Returns.bind (.of_run fun _ => hload) (hconstructs.returns.bind (.of_run fun _ => rfl))
  | @withCarrier k source hs hc =>
    obtain ⟨carrier, cs', carriers, htake⟩ := cs.take_spec source w
    have hstart : Starts ⟨w, .build o step cs, os⟩ _ := .withCarrier hs htake
    have hleads : w.Leads _ := .of_take hw htake
    obtain ⟨target, w', hconstructs, htype, hreference, hspares, -⟩ :=
      construct_release_safe hsafe (hw.leads hleads) (hc.mono (hleads.evolves hw).schema) hall
        (hcoop.starts hstart)
    refine ⟨target, cs', _, ?_, htype, hreference, hspares, _, hstart, hconstructs.succeeds⟩
    simp only [BuildStep.build, hs]
    exact Returns.bind (.of_run fun _ => htake)
      (hconstructs.returns.withParameters.bind (.of_run fun _ => rfl))
  | @lookup l source x k hs hx hr _ hk htakes hc hfits _ =>
    have hlookup : l ∈ (Act.build o step cs).lookup? := by rw [Act.lookup?, hs]; rfl
    obtain ⟨lookups, hresolve⟩ := hr (hcoop.registries _ .refl l hlookup)
    have hresolved : w.Leads { w with lookups } := World.resolve_runs hw.sound hresolve
    obtain ⟨carrier, cs', carriers, htake⟩ := cs.take_spec source { w with lookups }
    have hleads : w.Leads _ := hresolved.trans (.of_take (hw.leads hresolved) htake)
    have hstart : Starts ⟨w, .build o step cs, os⟩ _ := .lookup hs hresolve htake hk
    have hgiven : x.given carrier = [.carrier carrier] := by rw [Descriptor.given, htakes]; rfl
    rw [hgiven, hx] at hstart
    obtain ⟨target, w', hconstructs, htype, hreference, hspares, hlast⟩ :=
      construct_release_safe hsafe (hw.leads hleads) (hc.mono (hleads.evolves hw).schema) hall
        (hcoop.starts hstart)
    have hcreate := hconstructs.returns
    rw [← hgiven, ← hx] at hcreate
    have hinstance : (w'.release carrier step.parameters).isInstance target step.fieldType = true := by
      have he := (hleads.trans hlast).evolves hw
      obtain ⟨b, d, -, rfl, -, hd, -⟩ := hc
      have hdeclares : w.schema.Declares (.cls b) := Schema.declares_of_decl? (t := .cls b) hd
      rw [World.isInstance, htype, Schema.isAssignable_eq he.schema hdeclares]
      exact hfits
    refine ⟨target, cs', _, ?_, htype, hreference, hspares, _, hstart, hconstructs.succeeds⟩
    simp only [BuildStep.build, hs]
    refine Returns.bind (.of_run fun _ => resolve_eq_ok_iff.mpr hresolve)
      (Returns.bind (.of_run fun _ => htake)
        ((hcreate.createWith hk).withParameters.bind (.of_run fun _ => ?_)))
    rw [ask_bind, step.received_created hinstance]
    rfl

omit hsafe in
theorem Feasible.isClass (hf : w.Feasible c step t) : ∃ b, t = .cls b ∧ w.schema.Declares (.cls b) := by
  have hclass : ∀ {k m}, w.CanConstruct c t k m → ∃ b, t = .cls b ∧ w.schema.Declares (.cls b) := by
    rintro k m ⟨b, d, -, rfl, -, hd, -⟩
    exact ⟨b, rfl, Schema.declares_of_decl? (t := .cls b) hd⟩
  cases hf with
  | direct hs hc => exact hclass hc
  | withCarrier hs hc => exact hclass hc
  | lookup hs hx hr honly hk htakes hc => exact hclass hc

/-- A step builds its field, and changes nothing else of the objects that are being built. -/
theorem step_safe (hw : w.Ready n) (hn : c ≤ n) (hp : w.Provides c step) (ho : w.HasSlots o (step.slot + 1))
    (hfresh : o ∉ os) (hall : w.HasAll os) (hcoop : Cooperates ⟨w, .build o step cs, o :: os⟩) :
    ∃ cs' w', Returns (fun calls => step.run calls o cs) w cs' w' ∧ w.Spares os w' ∧
      (∀ k, k ≠ step.slot → w'.heap.field? o k = w.heap.field? o k) ∧ w'.Built o step ∧
      Succeeds ⟨w, .build o step cs, o :: os⟩ := by
  obtain ⟨hdeclares, t, hf, hreceiver⟩ := hp
  obtain ⟨b, rfl, hb⟩ := Feasible.isClass hf
  obtain ⟨target, cs', w₁, hbuilds⟩ := Feasible.builds hsafe hw hf (hall.cons ho) hcoop
  have hw₁ : w.Leads w₁ := .of_returns (fun depth => Regime.keeps_build
    (Regime.quiet.nested_lawful depth) hw.sound ⟨fun _ _ => trivial, fun _ _ => trivial⟩
    step.all_true) hw hbuilds.returns
  have ho₁ : w₁.HasSlots o (step.slot + 1) := ho.mono (hw₁.evolves hw).heap
  obtain ⟨w₂, hset, hfield, hslots, hobjects⟩ := World.setField_reference ho₁ hbuilds.reference
  have hreturns : Returns (fun calls => step.run calls o cs) w cs' w₂ := by
    simp only [BuildStep.run]
    exact hbuilds.returns.bind (.bind (.of_run fun _ => change_of_ok hset) (.of_run fun _ => rfl))
  have hends : Ends ⟨w, .build o step cs, o :: os⟩ w₂ := hreturns.map
  have he := (World.Leads.of_ends hw hends).evolves hw
  have hstored : w₁.heap.Grows w₂.heap :=
    ((World.Works.setField (hw.leads hw₁).sound.heap hset).leads.evolves (hw.leads hw₁)).heap
  obtain ⟨m, hstart, hsucceeds⟩ := hbuilds.starts
  refine ⟨cs', w₂, hreturns, fun o' ho' => ?_, fun k hk => ?_, ?_,
    .of_start ⟨w₂, hends⟩ hstart rfl hsucceeds⟩
  · rw [hobjects o' fun heq => hfresh (heq ▸ ho')]
    exact hbuilds.spares o' (List.mem_cons_of_mem _ ho')
  · rw [hslots k hk]
    exact Heap.field?_congr (hbuilds.spares o List.mem_cons_self)
  · refine ⟨target, b, hfield, World.classOf_of_grows hstored hbuilds.type,
      hdeclares.mono he.schema, fun hasks => ?_⟩
    rw [Schema.receiver?_eq he.schema hw.sound.proper.closed hb]
    rw [World.Asks, Schema.implementsInterface_eq he.schema hdeclares] at hasks
    exact hreceiver (fun b hb => hw.hears b (Nat.lt_of_lt_of_le hb hn)) hasks

end

/-! ## Running plans -/

/-- A plan is about to be run on an object that has the fields of the class. -/
structure Planned (n c : ClassId) (d : ClassDecl) (p : ConstructionPlan) (w : World) (o : ObjectId)
    (args : List Value) (os : List ObjectId) : Prop where
  ready : w.Ready n
  below : c ≤ n
  type : w.schema.class? c = some d
  plan : ∃ ctor ∈ d.constructors, ctor.body = .plan p
  slots : w.HasSlots o d.layout.length
  fresh : o ∉ os
  all : w.HasAll os
  cooperates : Cooperates ⟨w, .body o args (.plan p), os⟩

namespace Planned

variable {before after : List BuildStep} {i : InfoStep} {is js : List InfoStep} {r : BaseCall}
variable (h : Planned n c d p w o args os)
include h

/-- What the plan refers to is there, also in later worlds. -/
theorem supports (hl : w.Leads w') : w'.Supports c d p := by
  have hw := h.ready.leads hl
  obtain ⟨ctor, hctor, hp⟩ := h.plan
  exact hw.sound.supports hw.sorted (fun _ => rfl)
    ((hl.evolves h.ready).schema.classes h.type) hctor hp

variable (hsafe : ∀ b, b < c → ConstructorsSafe n b)
include hsafe

/-- The next step of the plan. -/
theorem next_step (hp : p.steps = before ++ step :: after)
    (hsteps : Returns (fun calls => BuildStep.runAll calls o before (p.carriers args)) w cs w₁) :
    ∃ cs' w₂, Returns (fun calls => step.run calls o cs) w₁ cs' w₂ ∧ w₁.Spares os w₂ ∧
      (∀ k, k ≠ step.slot → w₂.heap.field? o k = w₁.heap.field? o k) ∧ w₂.Built o step ∧
      Succeeds ⟨w₁, .build o step cs, o :: os⟩ := by
  have hl : w.Leads w₁ := .of_runAll h.ready hsteps
  have he := hl.evolves h.ready
  have hm : step ∈ p.steps := hp ▸ List.mem_append_right _ List.mem_cons_self
  have hsupports := h.supports hl
  exact step_safe hsafe (h.ready.leads hl) h.below (hsupports.steps step hm)
    ((h.slots.mono he.heap).le (hsupports.bound step hm)) h.fresh (h.all.mono he.heap)
    (h.cooperates.starts (.build hp hsteps))

/-- The first steps of the plan build their fields. -/
theorem run_steps (hp : p.steps = before ++ after) :
    ∃ cs w₁, Returns (fun calls => BuildStep.runAll calls o before (p.carriers args)) w cs w₁ ∧
      w.Spares os w₁ ∧ ∀ step ∈ before, w₁.Built o step := by
  induction before using List.reverseRecOn generalizing after with
  | nil =>
    exact ⟨p.carriers args, w, .of_run fun _ => rfl, .refl _ _, fun _ hm => nomatch hm⟩
  | append_singleton before step ih =>
    have hp : p.steps = before ++ step :: after := by rw [hp, List.append_assoc]; rfl
    obtain ⟨cs, w₁, hsteps, hspares, hbuilt⟩ := ih hp
    obtain ⟨cs', w₂, hstep, hspares', hslots, hbuilt', -⟩ := h.next_step hsafe hp hsteps
    have hw₁ := h.ready.leads (.of_runAll h.ready hsteps)
    have hends : Ends ⟨w₁, .build o step cs, os⟩ w₂ := hstep.map
    have hl : w₁.Leads w₂ := .of_ends hw₁ hends
    refine ⟨cs', w₂, ?_, hspares.trans hspares', fun s hs => ?_⟩
    · simp only [BuildStep.runAll_concat]
      exact hsteps.bind hstep
    · rcases List.mem_append.mp hs with hs | hs
      · have hdistinct := (h.supports (.refl w)).slots
        rw [hp, List.map_append, List.nodup_append] at hdistinct
        have hne : s.slot ≠ step.slot := hdistinct.2.2 s.slot (List.mem_map_of_mem hs) step.slot
          List.mem_cons_self
        exact (hbuilt s hs).mono hw₁ hl (hslots s.slot hne)
      · exact List.mem_singleton.mp hs ▸ hbuilt'

/-- The next receiver. -/
theorem next_info (hp : p.infos = is ++ i :: js)
    (hsteps : Returns (fun calls => BuildStep.runAll calls o p.steps (p.carriers args)) w cs w₁)
    (hinfos : Returns (fun calls => is.forM (InfoStep.run calls o)) w₁ () w₂)
    (hspares : w₁.Spares (o :: os) w₂) : Safe ⟨w₂, .inform o i, o :: os⟩ := by
  have hl : w.Leads w₁ := .of_runAll h.ready hsteps
  have hw₁ := h.ready.leads hl
  have hl' : w₁.Leads w₂ := .of_infos hw₁ hinfos
  have hm : i ∈ p.infos := hp ▸ List.mem_append_right _ List.mem_cons_self
  obtain ⟨step, hstep, hslot, hasks⟩ := (h.supports (hl.trans hl')).infos i hm
  obtain ⟨cs', w₁', hsteps', -, hbuilt⟩ := h.run_steps hsafe (List.append_nil p.steps).symm
  obtain ⟨rfl, rfl⟩ := hsteps.unique hsteps'
  obtain ⟨target, b, hfield, hclass, -, hreceiver⟩ := (hbuilt step hstep).mono hw₁ hl'
    (Heap.field?_congr (hspares o List.mem_cons_self))
  obtain ⟨body, hbody⟩ := Option.isSome_iff_exists.mp (hreceiver hasks)
  rw [hslot] at hfield
  rw [← hclass] at hbody
  have hcoop : Cooperates ⟨w₂, .inform o i, o :: os⟩ :=
    h.cooperates.starts (.inform hp hsteps hinfos)
  have hstart : Starts ⟨w₂, .inform o i, o :: os⟩ _ := .inform_receiver hfield hbody
  obtain ⟨w₃, hends, hspares'⟩ := (hcoop.starts hstart).bodies _ .refl rfl
  have hends : Ends ⟨w₂, .inform o i, o :: os⟩ w₃ := by
    obtain ⟨N, hN⟩ := hends
    refine ⟨N, fun depth hdepth => ?_⟩
    show InfoStep.run (Calls.nested depth) o i w₂ = _
    rw [InfoStep.run, bind_of_ok (check_of_ok hfield)]
    dsimp only
    rw [ask_bind, hbody]
    exact hN depth hdepth
  exact ⟨⟨w₃, hends, hspares'⟩, .of_start ⟨w₃, hends⟩ hstart rfl ((hcoop.starts hstart).succeeds rfl)⟩

/-- The first values are told their properties. -/
theorem run_infos (hp : p.infos = is ++ js)
    (hsteps : Returns (fun calls => BuildStep.runAll calls o p.steps (p.carriers args)) w cs w₁) :
    ∃ w₂, Returns (fun calls => is.forM (InfoStep.run calls o)) w₁ () w₂ ∧
      w₁.Spares (o :: os) w₂ := by
  induction is using List.reverseRecOn generalizing js with
  | nil => exact ⟨w₁, .of_run fun _ => rfl, .refl _ _⟩
  | append_singleton is i ih =>
    have hp : p.infos = is ++ i :: js := by rw [hp, List.append_assoc]; rfl
    obtain ⟨w₂, hinfos, hspares⟩ := ih hp
    obtain ⟨⟨w₃, hends, hspares'⟩, -⟩ := h.next_info hsafe hp hsteps hinfos hspares
    refine ⟨w₃, ?_, hspares.trans hspares'⟩
    simp only [InfoStep.runAll_concat]
    exact hinfos.bind hends

/-- The constructor of the abstract class. -/
theorem run_base (hp : p.base = some r)
    (hsteps : Returns (fun calls => BuildStep.runAll calls o p.steps (p.carriers args)) w cs w₁)
    (hinfos : Returns (fun calls => p.infos.forM (InfoStep.run calls o)) w₁ () w₂)
    {values : List Value} {w₃ : World} (ha : r.arguments cs w₂ = (.ok values, w₃)) :
    w₂.Spares os w₃ ∧ Safe ⟨w₃, .chain r.target r.constructor o values, os⟩ := by
  have hl₁ : w.Leads w₁ := .of_runAll h.ready hsteps
  have hl₂ : w.Leads w₂ := hl₁.trans (.of_infos (h.ready.leads hl₁) hinfos)
  have hl₃ : w.Leads w₃ := hl₂.trans (.of_arguments (h.ready.leads hl₂) ha)
  have hg := (hl₃.evolves h.ready).heap
  obtain ⟨a, d', ctor, htarget, hlt, hd', hk, hlength, hle⟩ := (h.supports hl₃).base r hp
  obtain ⟨values', carriers, ha', hvalues⟩ := r.arguments_spec cs w₂
  obtain ⟨hvs, rfl⟩ := end_inj.mp (ha.symm.trans ha')
  obtain rfl := Except.ok.inj hvs
  have hstart := h.cooperates.starts (.base hp hsteps hinfos ha)
  rw [htarget] at hstart ⊢
  exact ⟨fun _ _ => rfl, chain_safe hsafe (h.ready.leads hl₃) hlt hd' hk (hlength.trans hvalues.symm)
    ((h.slots.mono hg).le hle) h.fresh (h.all.mono hg) hstart⟩

/-- **The plan runs.** -/
theorem safe : Safe ⟨w, .body o args (.plan p), os⟩ := by
  obtain ⟨cs, w₁, hsteps, hspares, -⟩ := h.run_steps hsafe (List.append_nil p.steps).symm
  obtain ⟨w₂, hinfos, hspares'⟩ := h.run_infos hsafe (List.append_nil p.infos).symm hsteps
  have hfirst := hspares.trans hspares'.of_cons
  have hends : ∃ w', Ends ⟨w, .body o args (.plan p), os⟩ w' ∧ w.Spares os w' := by
    cases hp : p.base with
    | none =>
      refine ⟨w₂, ?_, hfirst⟩
      show Returns (fun calls => p.run calls o args) w () w₂
      simp only [ConstructionPlan.run, hp]
      exact hsteps.bind (hinfos.bind (.of_run fun _ => rfl))
    | some r =>
      obtain ⟨values, carriers, ha, -⟩ := r.arguments_spec cs w₂
      obtain ⟨hspares₃, ⟨w₄, hends, hspares₄⟩, -⟩ := h.run_base hsafe hp hsteps hinfos ha
      refine ⟨w₄, ?_, hfirst.trans (hspares₃.trans hspares₄)⟩
      show Returns (fun calls => p.run calls o args) w () w₄
      simp only [ConstructionPlan.run, hp, BaseCall.run_eq]
      exact hsteps.bind (hinfos.bind (Returns.bind (.of_run fun _ => ha) hends))
  refine ⟨hends, .of_starts (hends.imp fun _ => And.left) fun m' hs => ?_⟩
  cases hs with
  | build hp hrun =>
    obtain ⟨-, -, -, -, -, -, hsucceeds⟩ := h.next_step hsafe hp hrun
    exact hsucceeds
  | inform hp hrun hi =>
    obtain ⟨w₂', hi', hspared⟩ := h.run_infos hsafe hp hrun
    obtain ⟨-, rfl⟩ := hi.unique hi'
    exact (h.next_info hsafe hp hrun hi hspared).succeeds
  | base hp hrun hi ha => exact (h.run_base hsafe hp hrun hi ha).2.succeeds

end Planned

/-! ## All constructors -/

/-- A constructor that runs one of another class runs one of an earlier class, whose fields are among
those of its own. -/
theorem World.Ready.chains (hw : w.Ready n) (hd : w.schema.class? c = some d)
    (hctor : ctor ∈ d.constructors) (hbody : ctor.body = .chain (some (t, k))) :
    ∃ b d' ctor', t = .cls b ∧ b < c ∧ w.schema.class? b = some d' ∧
      d'.constructors[k]? = some ctor' ∧ ctor'.params = [] ∧ d'.layout.length ≤ d.layout.length := by
  rcases hw.sorted c d hd with hwritten | ⟨r, registry, hr, hmakes⟩
  · obtain ⟨b, d', ctor', ht, hlt, hd', hk, hparams, hle, -⟩ := hwritten.chains ctor hctor t k hbody
    exact ⟨b, d', ctor', ht, hlt, hd', hk, hparams, hle⟩
  · obtain ⟨b, c₀, e, i, h₀, -, -, -, -, -, -, rfl, -⟩ :=
      hmakes.spec (hw.sound.registries hr) hd
    rcases List.mem_pair.mp hctor with rfl | rfl <;> cases hbody

/-- **Constructors run**, unless users make them fail. -/
theorem constructors_safe (hn : c ≤ n) : ConstructorsSafe n c := by
  induction c using Nat.strong_induction_on with
  | _ c ih =>
    intro w d ctor o args os hw hd hctor ho hfresh hall hcoop
    have hsafe : ∀ b, b < c → ConstructorsSafe n b := fun b hlt =>
      ih b hlt (Nat.le_of_lt (Nat.lt_of_lt_of_le hlt hn))
    cases hbody : ctor.body with
    | routine r =>
      rw [hbody] at hcoop
      have hstart : Starts ⟨w, .body o args (.routine r), os⟩ _ := .routine
      obtain ⟨w', hends, hspares⟩ := (hcoop.starts hstart).bodies _ .refl rfl
      exact ⟨⟨w', hends, hspares⟩, .of_start ⟨w', hends⟩ hstart rfl
        ((hcoop.starts hstart).succeeds rfl)⟩
    | chain base =>
      cases base with
      | none =>
        have hends : Ends ⟨w, .body o args (.chain none), os⟩ w := .of_run fun _ => rfl
        exact ⟨⟨w, hends, .refl _ _⟩, .of_starts ⟨w, hends⟩ fun m hs => nomatch hs⟩
      | some tk =>
        obtain ⟨t, k⟩ := tk
        rw [hbody] at hcoop
        obtain ⟨b, d', ctor', rfl, hlt, hd', hk, hparams, hle⟩ := hw.chains hd hctor hbody
        have hstart : Starts ⟨w, .body o args (.chain (some (.cls b, k))), os⟩ _ := .next
        have hcount : ctor'.params.length = ([] : List Value).length := congrArg List.length hparams
        obtain ⟨⟨w', hends, hspares⟩, hsucceeds⟩ := chain_safe hsafe hw hlt hd' hk hcount
          (ho.le hle) hfresh hall (hcoop.starts hstart)
        exact ⟨⟨w', hends, hspares⟩, .of_start ⟨w', hends⟩ hstart rfl hsucceeds⟩
    | wrapped kind =>
      rw [hbody] at hcoop
      exact ⟨hcoop.bodies _ .refl rfl, hcoop.succeeds rfl⟩
    | plan p =>
      rw [hbody] at hcoop
      exact Planned.safe ⟨hw, hn, hd, ⟨ctor, hctor, hbody⟩, ho, hfresh, hall, hcoop⟩ hsafe

/-! ## Creations through descriptors -/

/-- What is done when an instance is created through a descriptor, with a carrier or without. -/
def Descriptor.creating (x : Descriptor) : Option CarrierId → Option Act
  | none => x.defaultConstructor.map fun k => .construct x.product k []
  | some carrier => x.factoryConstructor.map fun k => .construct x.product k (x.given carrier)

/-- What is checked of the acts of creations, it holds of the act of one creation. -/
theorem World.all_creating {w : World} {e : DescriptorId} {x : Descriptor} {given : Option CarrierId}
    {check : Act → Bool}
    (h : (w.descriptors[e]?).all (fun x => (x.creating given).all check) = true)
    (hx : w.descriptors[e]? = some x) : ∀ act ∈ x.creating given, check act = true := by
  intro act hact
  rw [hx, Option.all_some, hact] at h
  exact h

/-- What a creation runs: the constructor, if there is one. -/
theorem Descriptor.creating_cases (x : Descriptor) (given : Option CarrierId) :
    (x.creating given = none ∧ ∀ depth, Run.create depth x given = pure .unavailable) ∨
      ∃ k args, x.creating given = some (.construct x.product k args) ∧
        ∀ depth, Run.create depth x given = x.guarded (Calls.nested depth) k args := by
  cases given with
  | none =>
    cases hk : x.defaultConstructor with
    | none => exact .inl ⟨by rw [creating, hk]; rfl, fun _ => by simp only [Run.create, create, hk]⟩
    | some k =>
      exact .inr ⟨k, [], by rw [creating, hk]; rfl, fun _ => by simp only [Run.create, create, hk]⟩
  | some carrier =>
    cases hk : x.factoryConstructor with
    | none =>
      exact .inl ⟨by rw [creating, hk]; rfl, fun _ => by simp only [Run.create, createWith, hk]⟩
    | some k =>
      refine .inr ⟨k, x.given carrier, by rw [creating, hk]; rfl, fun _ => ?_⟩
      simp only [Run.create, createWith, hk]
      rfl

/-- What a creation has created, its constructor has. -/
theorem Run.create_created {x : Descriptor} {given : Option CarrierId} {depth : Nat}
    (h : Run.create depth x given w = (.ok (.created o), w')) :
    ∃ k args, x.creating given = some (.construct x.product k args) ∧
      (Calls.nested depth).construct x.product k args w = (.ok o, w') := by
  rcases x.creating_cases given with ⟨-, hcreate⟩ | ⟨k, args, hact, hcreate⟩
  · rw [hcreate] at h
    cases h
  · rw [hcreate] at h
    rcases guarded_eq_ok h with ⟨o', ho, hconstruct⟩ | ⟨e, he⟩
    · obtain rfl := Creation.created.inj ho
      exact ⟨k, args, hact, hconstruct⟩
    · cases he

/-- If that ends, the creation gives the object. -/
theorem Descriptor.creating_returns {x : Descriptor} {given : Option CarrierId} {t : Ty} {k : Nat}
    {args : List Value} (ha : x.creating given = some (.construct t k args))
    (h : Returns (fun calls => calls.construct t k args) w o w') :
    ∃ N, ∀ depth, N ≤ depth → Run.create depth x given w = (.ok (.created o), w') := by
  cases given with
  | none =>
    obtain ⟨k', hk, he⟩ := Option.map_eq_some_iff.mp ha
    obtain ⟨rfl, rfl, rfl⟩ := Act.construct.inj he
    exact h.create hk
  | some carrier =>
    obtain ⟨k', hk, he⟩ := Option.map_eq_some_iff.mp ha
    obtain ⟨rfl, rfl, rfl⟩ := Act.construct.inj he
    exact h.createWith hk

/-- A creation that is not exhausted at a depth gives the same at every greater one. -/
theorem Run.create_deeper {x : Descriptor} {given : Option CarrierId} {n depth : Nat} (hle : n ≤ depth)
    (h : (Run.create n x given w).1 ≠ .error .exhausted) :
    Run.create depth x given w = Run.create n x given w := by
  cases given with
  | none => exact Calls.nested_approximates (fun _ _ ha => x.create_approximates ha) hle h
  | some k => exact Calls.nested_approximates (fun _ _ ha => x.createWith_approximates ha k) hle h

/-- What a creation gives at a depth, and the world it leaves, it gives and leaves at every greater
one. -/
theorem World.create_leaves_of_depth {e : DescriptorId} {x : Descriptor} (given : Option CarrierId)
    (n : Nat) (creation : Creation) (check : World → Bool)
    (h : (w.descriptors[e]?).all (fun x =>
      decide ((Run.create n x given w).1 = .ok creation) && check (Run.create n x given w).2) = true)
    (hx : w.descriptors[e]? = some x) :
    ∃ w', (∀ depth, n ≤ depth → Run.create depth x given w = (.ok creation, w')) ∧
      check w' = true := by
  rw [hx, Option.all_some, Bool.and_eq_true, decide_eq_true_eq] at h
  refine ⟨_, fun depth hdepth => ?_, h.2⟩
  rw [Run.create_deeper hdepth (by rw [h.1]; exact fun he => nomatch he)]
  exact Prod.ext h.1 rfl

theorem World.create_of_depth {e : DescriptorId} {x : Descriptor} {given : Option CarrierId} {n : Nat}
    {creation : Creation}
    (h : (w.descriptors[e]?).all (fun x =>
      decide ((Run.create n x given w).1 = .ok creation)) = true)
    (hx : w.descriptors[e]? = some x) :
    ∀ depth, n ≤ depth → (Run.create depth x given w).1 = .ok creation := by
  obtain ⟨w', hcreate, -⟩ := World.create_leaves_of_depth given n creation (fun _ => true)
    (by simpa only [Bool.and_true] using h) hx
  exact fun depth hdepth => congrArg Prod.fst (hcreate depth hdepth)

/-- The descriptor of an implementation runs one of its constructors. -/
theorem Descriptor.creating_canConstruct {x : Descriptor} {i : Implementation} {m : Workshop}
    {s : Schema} {report : Report} (hp : w.schema.decl? x.product = some (i.decl s))
    (hx : x = i.descriptor m report x.product) (given : Option CarrierId) :
    ∃ k args, x.creating given = some (.construct x.product k args) ∧
      w.CanConstruct w.schema.classes.size x.product k args.length := by
  obtain ⟨c, hc, hlt⟩ := Schema.lt_size_of_decl? hp
  have hd : w.schema.class? c = some (i.decl s) := by
    rwa [hc] at hp
  have hcan : ∀ k ctor, (i.decl s).constructors[k]? = some ctor →
      w.CanConstruct w.schema.classes.size x.product k ctor.params.length :=
    fun k ctor hk => ⟨c, i.decl s, ctor, hc, hlt, hd, rfl, rfl, hk, rfl⟩
  cases given with
  | none =>
    refine ⟨defaultIndex, [], ?_, hcan defaultIndex _ rfl⟩
    rw [creating, hx]
    rfl
  | some carrier =>
    refine ⟨factoryIndex, [.carrier carrier], ?_, hcan factoryIndex _ rfl⟩
    rw [creating, given, hx]
    rfl

/-- Each class that declares the receiver interface has a receiver, its own or one that it inherits. -/
def Schema.Responds (s : Schema) : Prop :=
  ∀ c d, s.class? c = some d → receiverInterface ∈ d.interfaces →
    (s.receiver? (.cls c)).isSome = true

/-- The constructor that a creation runs creates an object, unless users make it fail. -/
theorem World.exists_constructs {told : List Served} (hruns : Scene.Runs {} told w.quiet)
    {r : RegistryId} {registry : Registry} (hr : w.registries[r]? = some registry) {e : DescriptorId}
    {x : Descriptor} (hc : registry.cached? t = some e) (hx : w.descriptors[e]? = some x)
    (hs : x.isSynthesized = true) (hreceivers : w.schema.Responds) (given : Option CarrierId)
    (hcoop : ∀ act ∈ x.creating given, Cooperates ⟨w, act, []⟩) :
    ∃ k args o w', x.creating given = some (.construct x.product k args) ∧
      w.Constructs x.product k args [] o w' := by
  have hsound : w.quiet.Sound := Scene.sound_of_runs hruns
  have hsorted := Scene.sorted_of_runs hruns
  have hw : w.Ready w.schema.classes.size :=
    ⟨hsound, hsorted, hsorted.hears hsound hreceivers, Nat.le_refl _⟩
  obtain ⟨k, args, hact, hcan⟩ : ∃ k args, x.creating given = some (.construct x.product k args) ∧
      w.CanConstruct w.schema.classes.size x.product k args.length := by
    obtain ⟨h₀, -, hserves⟩ := (hsound.registries hr).serves_cached hc hx
    cases hserves with
    | concrete _ _ _ hx => rw [hx] at hs; cases hs
    | implemented _ _ _ _ hp _ hx => exact Descriptor.creating_canConstruct hp hx given
  obtain ⟨o, w', hconstructs⟩ := construct_safe
    (fun b hlt => constructors_safe (Nat.le_of_lt hlt)) hw hcan (fun _ ho => (List.not_mem_nil ho).elim)
    (hcoop _ hact)
  exact ⟨k, args, o, w', hact, hconstructs⟩

/-- **Plans always run.** In a world that comes about from nothing, a creation through the descriptor
of an implementation creates an instance, with a carrier or without, and every act that is met in its
course ends: provided that the bodies of users that are run return and leave the objects that are
being built as they are, that the registries that are asked are alive, and that each class that
declares the receiver interface has a receiver. -/
theorem World.creates {told : List Served} (hruns : Scene.Runs {} told w.quiet) {r : RegistryId}
    {registry : Registry} (hr : w.registries[r]? = some registry) {e : DescriptorId} {x : Descriptor}
    (hc : registry.cached? t = some e) (hx : w.descriptors[e]? = some x)
    (hs : x.isSynthesized = true) (hreceivers : w.schema.Responds)
    (given : Option CarrierId) (hcoop : ∀ act ∈ x.creating given, Cooperates ⟨w, act, []⟩) :
    ∃ N o w', (∀ depth, N ≤ depth → Run.create depth x given w = (.ok (.created o), w')) ∧
      w'.classOf o = x.product ∧ ∀ act ∈ x.creating given, Succeeds ⟨w, act, []⟩ := by
  obtain ⟨k, args, o, w', hact, hconstructs⟩ :=
    World.exists_constructs hruns hr hc hx hs hreceivers given hcoop
  obtain ⟨N, hcreate⟩ := Descriptor.creating_returns hact hconstructs.returns
  refine ⟨N, o, w', hcreate, hconstructs.type, fun act hact' => ?_⟩
  obtain rfl := Option.some.inj (hact.symm.trans hact')
  exact hconstructs.succeeds

/-! ### Scenes -/

theorem Schema.responds_of_all {s : Schema}
    (h : ((List.range s.classes.size).all fun c => (s.class? c).all fun d =>
      !d.interfaces.contains receiverInterface || (s.receiver? (.cls c)).isSome) = true) :
    s.Responds := by
  intro c d hd hm
  have hlt : c < s.classes.size := (Array.getElem?_eq_some_iff.mp hd).1
  have hc := List.all_eq_true.mp h c (List.mem_range.mpr hlt)
  rw [hd, Option.all_some] at hc
  simpa [hm] using hc

namespace Scene

/-- Drafts of a class with a receiver, whose constructor takes a carrier, of an abstract class with two
properties of its type, one of them with parameters, and of one with a property of that type. -/
def loomDrafts : List ClassDraft :=
  let constructor : MemberDraft :=
    .constructor { params := [.carrier], isPublic := true, body := .routine [.log (.parameterCount 0)] }
  [{ name := "Loom.Thread"
     members := [constructor, .defaultConstructor, .receiver [.log .infoName]] },
   { name := "Loom.Cloth", isAbstract := true
     members := [.property { World.forestProperty (.cls 0) with name := "Warp" },
       .property { World.forestProperty (.cls 0) with
         name := "Weft", attributes := [.parameters [.ofBool true]] }, constructor] },
   { name := "Loom.Bale", isAbstract := true
     members := [.property { World.forestProperty (.cls 1) with
       attributes := [.parameters [.ofBool false]] }, .defaultConstructor] }]

/-- The world in which `Loom.Bale` has been implemented, and `Loom.Cloth` with it. -/
def loom : World := asked loomDrafts (.cls 2)

theorem loom_canDeclare : CanDeclare {} loomDrafts := by decide +kernel

theorem loom_runs : ∃ told, Runs {} told loom.quiet :=
  asked_runs (opened_runs loom_canDeclare (by decide) (by decide)) (.cls 2)

theorem loom_cooperates : (loom.descriptors[1]?).all (fun x => (x.creating none).all fun act =>
    survey (Calls.nested 12) (cooperates (Calls.nested 12)) 16 ⟨loom, act, []⟩) = true := by
  decide +kernel

/-- A bale is created. -/
theorem creates_loom : ∃ x N o w, loom.descriptors[1]? = some x ∧
    (∀ depth, N ≤ depth → Run.create depth x none loom = (.ok (.created o), w)) ∧
      w.classOf o = .cls 4 := by
  obtain ⟨told, hruns⟩ := loom_runs
  obtain ⟨registry, x, hr, hc, hx, hs, hproduct⟩ := exists_published (w := loom) (r := 0)
    (t := .cls 2) (e := 1) (p := .cls 4) (by decide +kernel) (by decide +kernel)
  obtain ⟨N, o, w, hcreate, hclass, -⟩ := World.creates hruns hr hc hx hs
    (Schema.responds_of_all (by decide +kernel)) none fun act hact =>
      cooperates_of_survey (World.all_creating loom_cooperates hx act hact)
  exact ⟨x, N, o, w, hx, hcreate, hclass.trans hproduct⟩

/-- The world in which a registry has implemented `Orphan.Fruit`, another registry has implemented
`Orphan.Basket`, which has a property of the type of the implementation, and the first registry has been
dropped. -/
def orphan : World :=
  let seed : ClassDraft :=
    { name := "Orphan.Seed", isAbstract := true, members := [.defaultConstructor] }
  let holder (name : String) (t : Ty) : ClassDraft :=
    { name, isAbstract := true
      members := [.property (World.forestProperty t), .defaultConstructor] }
  let w := asked [seed, holder "Orphan.Fruit" (.cls 0)] (.cls 1)
  let w := { w with
    schema := addDrafts w.schema [holder "Orphan.Basket" (.cls 3)]
    registries := w.registries.push World.forestRegistry }
  (w.request 1 (.cls 4)).dropRegistry 0

theorem orphan_users : (orphan.descriptors[2]?).all (fun x => (x.creating (some 0)).all fun act =>
    survey (Calls.nested 12) (fun m => !m.act.isUser) 16 ⟨orphan, act, []⟩) = true := by
  decide +kernel

/-- The world in which a registry has implemented `Hoard.Chest` and `Hoard.Vault`, which is below the
implementation of the former. A box is there, which is a construction parameter of both. -/
def hoard : World :=
  let box : ClassDraft :=
    { name := "Hoard.Box", members := [.auto "Owner" .any, .defaultConstructor] }
  let takesBox (steps : Routine) : MemberDraft :=
    .constructor { params := [.cls 0], isPublic := true, body := .routine steps }
  -- a tag tells the box its owner
  let tag : ClassDraft :=
    { name := "Hoard.Tag"
      members := [.auto "Box" (.cls 0), takesBox [.setProperty "Box" (.argument 0)],
        .receiver [.setPropertyOf (.property "Box") "Owner" .owner]] }
  let coin : ClassDraft :=
    { name := "Hoard.Coin", members := [.defaultConstructor, .receiver []] }
  -- a thief takes the coin from the owner of the box
  let thief : ClassDraft :=
    { name := "Hoard.Thief"
      members := [takesBox
        [.setPropertyOf (.propertyOf (.argument 0) "Owner") "Coin" (.value .null)]] }
  let property (name : String) (t : Ty) (attributes : List Attribute) : MemberDraft :=
    .property { World.forestProperty t with name, attributes }
  let boxed : List Attribute := [.parameters [.object 0]]
  let chest : ClassDraft :=
    { name := "Hoard.Chest", isAbstract := true
      members := [property "Coin" (.cls 2) [], property "Thief" (.cls 3) boxed,
        .defaultConstructor] }
  let vault : ClassDraft :=
    { name := "Hoard.Vault", base := some (.cls 5), isAbstract := true
      members := [property "Tag" (.cls 1) boxed, .defaultConstructor] }
  let w : World :=
    { schema := addDrafts {} [box, tag, coin, thief, chest]
      registries := #[World.forestRegistry] }
  let w := ((w.newObject (.cls 0)).elim w Prod.snd).request 0 (.cls 4)
  { w with schema := addDrafts w.schema [vault] }.request 0 (.cls 6)

/-- Whether a body of a user returns, and leaves the owner of the field as it is if it is a receiver. -/
def sparesOwner (m : Situation) : Bool :=
  !m.act.isUser ||
    match m.act.run (Calls.nested 12) m.world with
    | (.ok _, w) => decide (m.world.Spares m.act.owner?.toList w)
    | (.error _, _) => false

theorem hoard_users : (hoard.descriptors[1]?).all (fun x => (x.creating none).all fun act =>
    survey (Calls.nested 12) sparesOwner 16 ⟨hoard, act, []⟩) = true := by
  decide +kernel

theorem exists_ends_of_sparesOwner {m : Situation} (h : sparesOwner m = true)
    (hu : m.act.isUser = true) : ∃ w, m.Ends w ∧ m.world.Spares m.act.owner?.toList w := by
  rw [sparesOwner, hu, Bool.not_true, Bool.false_or] at h
  split at h
  · next w hrun => exact ⟨w, .of_depth m.act.run_uniform hrun, of_decide_eq_true h⟩
  · cases h

/-- A creation can fail although its registry is alive and users behave: if another registry is asked
that has been dropped, or if the body of a constructor, which has come to know the owner of a field,
takes away what has just been built. -/
theorem creates_not_always :
    (∃ registry x, orphan.registries[1]? = some registry ∧ registry.isAlive = true ∧
      registry.cached? (.cls 4) = some 2 ∧ orphan.descriptors[2]? = some x ∧
      x.isSynthesized = true ∧ orphan.schema.Responds ∧
      (∀ act ∈ x.creating (some 0), ∀ m, Meets ⟨orphan, act, []⟩ m → m.act.isUser = false) ∧
      ∀ depth, 12 ≤ depth → (Run.create depth x (some 0) orphan).1 =
        .ok (.failed (.thrown "mapping registry has been dropped"))) ∧
    ∃ registry x, hoard.registries[0]? = some registry ∧ registry.isAlive = true ∧
      registry.cached? (.cls 6) = some 1 ∧ hoard.descriptors[1]? = some x ∧
      x.isSynthesized = true ∧ hoard.schema.Responds ∧
      (∀ act ∈ x.creating none, ∀ m, Meets ⟨hoard, act, []⟩ m → m.act.isUser = true →
        ∃ w, m.Ends w ∧ m.world.Spares m.act.owner?.toList w) ∧
      ∀ depth, 12 ≤ depth → (Run.create depth x none hoard).1 =
        .ok (.failed (.nullReference "'_Coin' is null")) := by
  obtain ⟨r, x, hr, hc, hx, hs, -⟩ := exists_published (w := orphan) (r := 1) (t := .cls 4)
    (e := 2) (p := .cls 5) (by decide +kernel) (by decide +kernel)
  obtain ⟨r', x', hr', hc', hx', hs', -⟩ := exists_published (w := hoard) (r := 0) (t := .cls 6)
    (e := 1) (p := .cls 7) (by decide +kernel) (by decide +kernel)
  have halive : (orphan.registries[1]?).all Registry.isAlive = true := by decide +kernel
  have halive' : (hoard.registries[0]?).all Registry.isAlive = true := by decide +kernel
  rw [hr, Option.all_some] at halive
  rw [hr', Option.all_some] at halive'
  refine ⟨⟨r, x, hr, halive, hc, hx, hs, Schema.responds_of_all (by decide +kernel), ?_, ?_⟩,
    r', x', hr', halive', hc', hx', hs', Schema.responds_of_all (by decide +kernel), ?_, ?_⟩
  · intro act hact m hm
    have hcheck := (survey_meets (World.all_creating orphan_users hx act hact) hm).2
    exact Bool.not_eq_true' _ |>.mp hcheck
  · exact World.create_of_depth (by decide +kernel) hx
  · intro act hact m hm hu
    exact exists_ends_of_sparesOwner
      (survey_meets (World.all_creating hoard_users hx' act hact) hm).2 hu
  · exact World.create_of_depth (by decide +kernel) hx'

end Scene

end RecordForge
