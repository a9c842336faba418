import RecordForge.Proofs.Access.Equipment
import RecordForge.Proofs.Access.Members
import RecordForge.Proofs.Access.Nullables
import RecordForge.Proofs.Access.RoundTrip

/-!
# Fields for wrappers

An implementation keeps a property with a replacement type in a field of that type, for a wrapper. What
the field holds once an instance has been created (`World.wrapper_fields`) depends on the class of the
wrapper:

* an object of a value type is there from the beginning;
* for a class that the registry maps, the constructors of the implementation have one step that stores
  into the field (`ClassDecl.Backs`), and what is stored stays there, since no two steps store into the
  same slot (`World.Assembles.built`);
* the field of any other class is null from the beginning, and no step stores into it.

This says nothing about bodies of users, which may store anything anywhere: in the course of the creation
they are assumed to leave the field as it is (`World.Lasts`).
-/

namespace RecordForge

open Run

/-! ## What a slot keeps -/

/-- If what a slot of an object holds has a property, then what it holds later has the property, too. -/
def World.Lasts (P : Value → Prop) (o : ObjectId) (k : Nat) (w w' : World) : Prop :=
  ∀ v, w.heap.field? o k = some v → P v → ∃ v', w'.heap.field? o k = some v' ∧ P v'

namespace World.Lasts

variable {P : Value → Prop} {o : ObjectId} {k : Nat} {w w' w'' : World}

theorem of_field (h : ∀ v, w.heap.field? o k = some v → w'.heap.field? o k = some v) :
    Lasts P o k w w' := fun v hv hp => ⟨v, h v hv, hp⟩

theorem refl (w : World) : Lasts P o k w w := .of_field fun _ hv => hv

theorem trans (h : Lasts P o k w w') (h' : Lasts P o k w' w'') : Lasts P o k w w'' := by
  intro v hv hp
  obtain ⟨v', hv', hp'⟩ := h v hv hp
  exact h' v' hv' hp'

end World.Lasts

/-- A slot of a single object, into which no step stores. -/
def Custody.slot {c : ClassId} {d : ClassDecl} (P : Value → Prop) (o : ObjectId) {k : Nat}
    (hk : d.ownStart ≤ k) : Custody c d where
  Inv w := w.Hosts c d ∧ (Value.object o).Known w.heap
  Guards _ a := a = o
  Allows step := step.slot ≠ k
  Keeps := World.Lasts P o k
  hosts h := h.1
  inv h hw := ⟨h.1.tends hw, h.2.mono hw.heap⟩
  refl := World.Lasts.refl
  trans := World.Lasts.trans
  of_objects h := .of_field fun v hv => by
    rwa [Heap.field?, Heap.object?, h]
  allocate {w w' t a} hw hn := .of_field fun v hv => by
    obtain ⟨-, -, -, -, -, -, hadds, -⟩ := World.newObject_spec hn
    obtain ⟨i, hi, -⟩ := Heap.field?_eq_some_iff.mp hv
    rw [← hv]
    exact Heap.field?_congr ((hadds.old hi).trans hi.symm)
  former _ _ h := h
  own {w w' t a} hw hn ha := by
    -- the object is there already, so it is not the new one
    obtain ⟨-, -, -, -, -, hnew, -⟩ := World.newObject_spec hn
    have hlt : o < w.heap.objects.size := hw.2
    exact (Nat.lt_irrefl _ ((ha.symm.trans hnew) ▸ hlt)).elim
  above hlt := Nat.ne_of_lt (Nat.lt_of_lt_of_le hlt hk)
  store {w w₁ w₂ a step cs cs' v depth} hw ha hallows hbuild hw' hv hset := .of_field fun u hu => by
    obtain ⟨heap, hstore, rfl⟩ := World.setField_eq_ok_iff.mp hset
    obtain ⟨hover, -⟩ := Heap.store_spec (hw.1.tends hw').tidy.heap hv hstore
    rw [← hu]
    exact hover.field?_eq (hw.2.mono hw'.heap) fun he => (hallows he.symm).symm

/-! ## Plans that are run on a new instance -/

/-- A value that is an object. -/
def Value.IsObject (v : Value) : Prop := ∃ y, v = .object y

theorem Value.IsObject.alike {h h' : Heap} {v u : Value} (hv : v.IsObject) (hs : h.Alike h' v u) :
    u.IsObject := by
  obtain ⟨y, rfl⟩ := hv
  cases hs with
  | shared => exact ⟨_, rfl⟩
  | copied => exact ⟨_, rfl⟩

/-- A plan of an implementation has been run on a new instance. -/
structure World.Assembles (w : World) (c : ClassId) (d : ClassDecl) (act : Act) (o : ObjectId)
    (p : ConstructionPlan) (depth : Nat) (w₁ : World) (args : List Value) (w' : World) : Prop where
  plan : ∃ ctor ∈ d.constructors, ctor.body = .plan p
  new : w.newObject (.cls c) = some (o, w₁)
  starts : Situation.Starts ⟨w, act, []⟩ ⟨w₁, .body o args (.plan p), []⟩
  known : ∀ v ∈ args, v.Known w₁.heap
  run : p.run (Calls.nested depth) o args w₁ = (.ok (), w')

namespace World

variable {w w₁ w₂ w' : World} {c : ClassId} {d : ClassDecl} {o : ObjectId} {k depth : Nat}
variable {x : Descriptor} {given : Option CarrierId} {act : Act} {p : ConstructionPlan}
variable {args : List Value} {step : BuildStep} {P : Value → Prop}

/-- What creates an instance runs a plan on it. -/
theorem Hosts.exists_assembles (hw : w.Hosts c d) (hx : x.product = .cls c)
    (hgiven : ∀ k ∈ given, (Value.carrier k).Known w.heap)
    (h : Run.create depth x given w = (.ok (.created o), w')) : ∃ act ∈ x.creating given,
      ∃ p depth w₁ args, w.Assembles c d act o p depth w₁ args w' := by
  obtain ⟨k, args, hact, hconstruct⟩ := create_created h
  have hargs := Custody.known_creating hgiven hact
  rw [hx] at hact hconstruct
  cases depth with
  | zero => cases hconstruct
  | succ depth =>
    obtain ⟨-, -, decl, w₁, hdecl, hn, hbody⟩ := constructStep_eq_ok_iff.mp hconstruct
    obtain ⟨hget, -⟩ := Schema.constructorFor_eq_ok_iff.mp hdecl
    obtain ⟨d', hd', hmem⟩ := Schema.mem_constructors hget
    obtain rfl := Option.some.inj (hw.cls.symm.trans hd')
    obtain ⟨p, hp⟩ := hw.keeps.plans decl hmem
    have hstarts : Situation.Starts ⟨w, .construct (.cls c) k args, []⟩
        ⟨w₁, .body o args decl.body, []⟩ := .construct hdecl hn
    have htends := (Regime.tidy.allocate hw.inv hn).1
    rw [hp] at hstarts hbody
    exact ⟨_, hact, p, depth, w₁, args, ⟨decl, hmem, hp⟩, hn, hstarts,
      fun v hv => (hargs v hv).mono htends.heap, hbody⟩

namespace Assembles

variable (h : w.Assembles c d act o p depth w₁ args w') (hw : w.Hosts c d)
include h hw

theorem hosts : w₁.Hosts c d ∧ (Value.object o).Known w₁.heap := by
  obtain ⟨htends, ho⟩ := Regime.tidy.allocate hw.inv h.new
  exact ⟨hw.tends htends, ho⟩

/-- Some steps of the plan have been run. -/
theorem after_steps {before after : List BuildStep} (hp : p.steps = before ++ after) {cs : Carriers}
    (hbefore : BuildStep.runAll (Calls.nested depth) o before (p.carriers args) w₁ = (.ok cs, w₂)) :
    w₂.Hosts c d ∧ w₁.Tends w₂ ∧ Regime.tidy.Carries w₂ cs := by
  obtain ⟨hw₁, ho⟩ := h.hosts hw
  have hknown : ∀ step ∈ before, step.All (·.Known w₁.heap) := fun step hstep =>
    hw₁.steps_known h.plan step (hp ▸ List.mem_append_left after hstep)
  have hcarries : Regime.tidy.Carries w₁ (p.carriers args) := Regime.carries_argument h.known
  exact hw₁.next (Regime.keeps_steps (Regime.tidy.nested_lawful depth) hw₁.inv ho hcarries hknown)
    hbefore

/-- Once no step is left that stores into a slot, what is in the slot lasts, as far as the bodies of
users leave it there. -/
theorem lasts (hbodies : Situation.Leaves (Lasts P o k) ⟨w, act, []⟩) (hk : d.ownStart ≤ k)
    {before after : List BuildStep} (hp : p.steps = before ++ after)
    (hafter : ∀ step ∈ after, step.slot ≠ k) {cs : Carriers}
    (hbefore : BuildStep.runAll (Calls.nested depth) o before (p.carriers args) w₁ = (.ok cs, w₂))
    (hrun : p.runFrom (Calls.nested depth) o after cs w₂ = (.ok (), w')) : Lasts P o k w₂ w' := by
  obtain ⟨hw₁, ho⟩ := h.hosts hw
  obtain ⟨hw₂, htends, hcs⟩ := h.after_steps hw hp hbefore
  have ho₂ : (Value.object o).Known w₂.heap := ho.mono htends.heap
  have hknown : ∀ step ∈ after, step.All (·.Known w₂.heap) := fun step hstep =>
    hw₂.steps_known h.plan step (hp ▸ List.mem_append_right before hstep)
  obtain ⟨ctor, hctor, hplan⟩ := h.plan
  have hretains := Custody.runFrom_retains (G := Custody.slot P o hk) (Custody.nested_retains _ depth)
    (hbodies.starts h.starts) hp (.of_steps hbefore) ⟨hw₂, ho₂⟩ hcs ho₂ hknown (fun _ => hafter)
    fun _ b hb => hw₂.keeps.base ctor hctor p hplan b hb
  rw [Custody.Retains, hrun] at hretains
  exact hretains

/-- A slot into which no step stores. -/
theorem lasts_unbuilt (hbodies : Situation.Leaves (Lasts P o k) ⟨w, act, []⟩) (hk : d.ownStart ≤ k)
    (hne : ∀ step ∈ p.steps, step.slot ≠ k) : Lasts P o k w₁ w' :=
  h.lasts hw hbodies hk p.steps.nil_append.symm hne rfl h.run

/-- A step of the plan has built a value in a world `b`, and has stored it. What is in the slot then
lasts, as far as the bodies of users leave it there. -/
theorem exists_filled (hk : d.ownStart ≤ step.slot) (hstep : step ∈ p.steps) :
    ∃ b b₁ b₂ cs cs' v, Situation.Starts ⟨w₁, .body o args (.plan p), []⟩ ⟨b, .build o step cs, [o]⟩ ∧
      b.Hosts c d ∧ w.Tends b ∧ w.Grows b ∧ Regime.tidy.Carries b cs ∧
      step.build (Calls.nested depth) cs b = (.ok (v, cs'), b₁) ∧
      b₁.setField o step.slot v = .ok b₂ ∧ b₂.Grows w' ∧
      ∀ P, Situation.Leaves (Lasts P o step.slot) ⟨w, act, []⟩ → Lasts P o step.slot b₂ w' := by
  obtain ⟨hw₁, ho⟩ := h.hosts hw
  obtain ⟨before, after, hp⟩ := List.append_of_mem hstep
  have hp' : p.steps = (before ++ [step]) ++ after := by rw [hp, List.append_assoc]; rfl
  -- the slots of the steps are distinct, so no later step stores into this one
  have hafter : ∀ s ∈ after, s.slot ≠ step.slot := by
    have hnodup := (hw₁.supports h.plan).slots
    rw [hp, List.map_append, List.map_cons] at hnodup
    have hnot := (List.nodup_cons.mp hnodup.of_append_right).1
    exact fun s hs he => hnot (he ▸ List.mem_map_of_mem hs)
  have hrun := h.run
  rw [p.run_append hp'] at hrun
  obtain ⟨cs₂, b₂, hsteps, hrest⟩ := bind_eq_ok_iff.mp hrun
  have hlasts : ∀ P, Situation.Leaves (Lasts P o step.slot) ⟨w, act, []⟩ →
      Lasts P o step.slot b₂ w' := fun P hbodies => h.lasts hw hbodies hk hp' hafter hsteps hrest
  rw [BuildStep.runAll_concat] at hsteps
  obtain ⟨cs, b, hbefore, hlast⟩ := bind_eq_ok_iff.mp hsteps
  obtain ⟨v, b₁, hbuild, hset⟩ := step_eq_ok_iff.mp hlast
  obtain ⟨hb, htends, hcs⟩ := h.after_steps hw hp hbefore
  obtain ⟨hnew, -⟩ := Regime.tidy.allocate hw.inv h.new
  have hgrows : w.Grows b := (Regime.growing.allocate trivial h.new).1.trans (steps_grow hbefore)
  exact ⟨b, b₁, b₂, cs, cs₂, v, .build hp (.of_steps hbefore), hb, Regime.tidy.trans hnew htends,
    hgrows, hcs, hbuild, hset, runFrom_grows hrest, hlasts⟩

/-- **A slot for which there is a step** holds an object, unless a creation has failed, which has been
reported. -/
theorem built (hbodies : Situation.Leaves (Lasts Value.IsObject o step.slot) ⟨w, act, []⟩)
    (hk : d.ownStart ≤ step.slot) (hstep : step ∈ p.steps) :
    (∃ y, w'.heap.field? o step.slot = some (.object y)) ∨
      step.source.target? = none ∧ w.Announces (w.schema.name step.fieldType) w' := by
  obtain ⟨b, b₁, b₂, cs, cs', v, -, hb, -, hgrows, hcs, hbuild, hset, hafter, hlasts⟩ :=
    h.exists_filled hw hk hstep
  rcases step.build_outcome ((hb.supports h.plan).steps step hstep) hbuild with
    ⟨y, n, rfl, -⟩ | ⟨-, hlookup, htold⟩
  · obtain ⟨heap, hstore, rfl⟩ := World.setField_eq_ok_iff.mp hset
    obtain ⟨hb₁, -, hy, -⟩ := hb.next (Regime.keeps_build (Regime.tidy.nested_lawful depth) hb.inv
      hcs (hb.steps_known h.plan step hstep)) hbuild
    obtain ⟨-, u, hu, hsame⟩ := Heap.store_spec (v := .object y) hb₁.tidy.heap hy hstore
    obtain ⟨-, hu', z, rfl⟩ := hlasts _ hbodies u hu (Value.IsObject.alike ⟨y, rfl⟩ hsame)
    exact .inl ⟨z, hu'⟩
  · -- nothing was built, which has been reported in between
    have hlater : b₁.Grows w' := (Regime.growing.store trivial trivial trivial hset).trans hafter
    have hname : b.schema.name step.fieldType = w.schema.name step.fieldType :=
      Schema.name_eq hgrows.schema ((hw.supports h.plan).steps step hstep).1
    exact .inr ⟨hlookup, hname ▸ htold.grow hgrows hlater⟩

end Assembles

end World

/-! ## Implementations -/

/-- A place for a value type holds an object by value. -/
theorem Schema.blank_of_isValueType {s : Schema} {F : Ty} (h : s.isValueType F = true) :
    ∃ n bs, s.blank F = .record n bs := by
  rw [isValueType] at h
  cases hd : s.decl? F with
  | none => rw [hd] at h; cases h
  | some d =>
    obtain ⟨n, rfl, -⟩ := lt_size_of_decl? hd
    rw [hd] at h
    exact ⟨n, _, (blank_cls hd).trans (if_pos h)⟩

/-- A place for a class that is shared by reference is empty. -/
theorem Schema.blank_of_reference {s : Schema} {F : Ty} (hF : s.isClass F = true)
    (h : s.isValueType F = false) : s.blank F = .null := by
  obtain ⟨d, hd⟩ := Option.isSome_iff_exists.mp hF
  obtain ⟨n, rfl, -⟩ := lt_size_of_decl? hd
  rw [isValueType, hd] at h
  exact (blank_cls hd).trans (if_neg (Bool.eq_false_iff.mp h))

/-- What is read through a member is checked against the type of the property, if at all. -/
theorem PropertyField.eq_of_castType? {f : PropertyField} {s : Schema} {m : ValueMember} :
    ∀ t ∈ f.castType? s m, t = f.property.type ∧ s.ChecksReads f.property m := by
  intro t ht
  rw [castType?] at ht
  split at ht
  · next h =>
    simp only [Bool.and_eq_true, bne_iff_ne, Bool.not_eq_true'] at h
    exact ⟨(Option.some.inj ht).symm, h⟩
  · cases ht

/-- An implementation keeps a property in a slot for a wrapper, and accesses it through a member of what
is there. If the field is owned then both constructors have a step for the slot, and else none. -/
structure ClassDecl.Backs (s : Schema) (c : ClassId) (d : ClassDecl) (owned : Bool) (q : PropertyDecl)
    (F : Ty) (m : ValueMember) (k : Nat) : Prop where
  field : d.layout[k]? = some ⟨backingName q.name, F, false, s.blank F⟩
  own : d.ownStart ≤ k
  getter : ∃ type, (∀ t ∈ type, t = q.type ∧ s.ChecksReads q m) ∧
    s.getterFor (.cls c) q.name = .ok (.through k m type)
  setter : m.isWritable = true → s.setterFor (.cls c) q.name = .ok (.through k m q.type)
  built : owned = true → ∀ ctor ∈ d.constructors, ∀ p, ctor.body = .plan p →
    ∃ step ∈ p.steps, step.slot = k ∧ step.fieldType = F ∧
      (s.isAbstract F = false → step.source.target? = some F)
  unbuilt : owned = false → ∀ ctor ∈ d.constructors, ∀ p, ctor.body = .plan p →
    ∀ step ∈ p.steps, step.slot ≠ k

/-- **Where a property with a replacement type is kept.** -/
theorem Implementation.Realizes.backs {w : Workshop} {S : Schema} {cache : List (Ty × DescriptorId)}
    {σ : Session} {t a F : Ty} {base : ClassDecl} {i : Implementation} {c : ClassId}
    {q : PropertyDecl} {m : ValueMember} (hi : i.Realizes w S cache σ t base)
    (hd : S.class? c = some (i.decl S)) (hq : (a, q) ∈ S.publicProperties t)
    (ha : q.isAbstract = true) (hm : w.provider.Chooses S t q F (some m)) :
    ∃ k, ClassDecl.Backs S c (i.decl S) (w.provider.owns S F) q F m k := by
  obtain ⟨f, hf, j, hreal⟩ :=
    hi.properties.exists_of_mem (Schema.mem_abstractProperties.mpr ⟨⟨a, hq⟩, ha⟩)
  obtain ⟨F', member, hchooses, hfield⟩ := hreal.eq
  obtain ⟨rfl, rfl⟩ := hchooses.unique hm
  have hproperty : f.field.property = q := by rw [hfield]
  have hmember : f.field.member = some m := by rw [hfield]
  have htype : f.field.fieldType = F' := by rw [hfield]
  obtain ⟨hgetter, hsetter⟩ := hreal.accessors_through hmember
  have hplan := hreal.plan
  rw [← hproperty, ← htype]
  -- whether there is a step depends on whether the field has a plan
  refine ⟨f.field.slot, (hi.layout_slot hf).2, (hi.layout_slot hf).1,
    ⟨_, PropertyField.eq_of_castType?, hgetter ▸ hi.getterFor_own hd hf⟩,
    fun hw => hi.setterFor_own hd hf (hsetter hw), fun ho ctor hctor p hp => ?_,
    fun ho ctor hctor p hp => ?_⟩
  · cases hfp : f.plan with
    | none =>
      rw [hfp] at hplan
      rw [hplan.not_owns] at ho
      cases ho
    | some plan =>
      obtain ⟨source, hstep, htarget⟩ := hi.exists_step hf hfp hctor hp
      exact ⟨_, hstep, rfl, rfl, htarget⟩
  · cases hfp : f.plan with
    | none => exact hi.slot_ne hf hfp hctor hp
    | some plan =>
      rw [hfp] at hplan
      rw [hplan.owns] at ho
      cases ho

/-! ## Main result -/

namespace World

section
variable {w w₁ w' : World} {c : ClassId} {d : ClassDecl} {owned : Bool} {q : PropertyDecl} {F : Ty}
variable {m : ValueMember} {k depth : Nat} {x : Descriptor} {given : Option CarrierId} {o : ObjectId}

/-- In later worlds the accessors are the same. -/
theorem Hosts.forwards {v : Value} (hw : w.Hosts c d) (hdecl : w.schema.Declares q.type)
    (hq : ClassDecl.Backs w.schema c d owned q F m k) (hgrows : w.Grows w')
    (hclass : w'.classOf o = .cls c) (hv : w'.heap.field? o k = some v) : w'.Forwards o q m v := by
  have hclosed : w.schema.Closed := hw.sound.proper.closed
  have hdeclares : w.schema.Declares (.cls c) := Schema.declares_of_decl? (t := .cls c) hw.cls
  obtain ⟨type, htype, hget⟩ := hq.getter
  have henum : w'.schema.isEnum q.type = w.schema.isEnum q.type :=
    Schema.isEnum_eq hgrows.schema hdecl
  have hlater : ∀ t ∈ type, t = q.type ∧ w'.schema.ChecksReads q m := fun t ht =>
    ⟨(htype t ht).1, (htype t ht).2.1, henum.trans (htype t ht).2.2⟩
  refine forwards_of_accessors hlater ?_ (fun hm => ?_) hv
  · rw [hclass]
    exact Schema.getterFor_mono hgrows.schema hclosed hdeclares hget
  · rw [hclass]
    exact Schema.setterFor_mono hgrows.schema hclosed hdeclares (hq.setter hm)

/-- What is in a slot that no step stores into is what was there at the beginning. -/
theorem Hosts.unbuilt {act : Act} {p : ConstructionPlan} {args : List Value} {P : Value → Prop}
    (hw : w.Hosts c d) (hq : ClassDecl.Backs w.schema c d false q F m k)
    (h : w.Assembles c d act o p depth w₁ args w')
    (hbodies : Situation.Leaves (Lasts P o k) ⟨w, act, []⟩)
    (hP : ∀ v, w₁.heap.field? o k = some v → P v) : ∃ v, w'.heap.field? o k = some v ∧ P v := by
  obtain ⟨v, hv, -⟩ := hw.newObject_field h.new hq.field
  obtain ⟨ctor, hctor, hp⟩ := h.plan
  exact h.lasts_unbuilt hw hbodies hq.own (hq.unbuilt rfl ctor hctor p hp) v hv (hP v hv)

/-- A field for a value type holds an object from the beginning. -/
theorem Hosts.wrapper_of_isValueType {act : Act} {p : ConstructionPlan} {args : List Value}
    (hw : w.Hosts c d) (hq : ClassDecl.Backs w.schema c d false q F m k)
    (hF : w.schema.isValueType F = true) (h : w.Assembles c d act o p depth w₁ args w')
    (hbodies : Situation.Leaves (Lasts Value.IsObject o k) ⟨w, act, []⟩) :
    ∃ y, w'.heap.field? o k = some (.object y) := by
  obtain ⟨n, bs, hblank⟩ := Schema.blank_of_isValueType hF
  obtain ⟨v, hv, -, hrecord⟩ := hw.newObject_field h.new hq.field
  obtain ⟨y, -, rfl, -⟩ := hrecord n bs hblank
  obtain ⟨-, hz, z, rfl⟩ := hw.unbuilt hq h hbodies fun u hu =>
    ⟨y, (Option.some.inj (hv.symm.trans hu)).symm⟩
  exact ⟨z, hz⟩

/-- A field for a class that is shared by reference is null at the beginning, and no step changes that
if the class is not owned. -/
theorem Hosts.null_of_unowned {act : Act} {p : ConstructionPlan} {args : List Value}
    (hw : w.Hosts c d) (hq : ClassDecl.Backs w.schema c d false q F m k)
    (hF : w.schema.isValueType F = false) (hclass : w.schema.isClass F = true)
    (h : w.Assembles c d act o p depth w₁ args w')
    (hbodies : Situation.Leaves (Lasts (· = .null) o k) ⟨w, act, []⟩) :
    w'.heap.field? o k = some .null := by
  have hblank := Schema.blank_of_reference hclass hF
  obtain ⟨v, hv, hnull, -⟩ := hw.newObject_field h.new hq.field
  obtain ⟨-, hz, rfl⟩ := hw.unbuilt hq h hbodies fun u hu =>
    (Option.some.inj (hv.symm.trans hu)).symm.trans (hnull hblank)
  exact hz

/-- A field that is owned holds an object, unless its class is abstract and a creation of it has
failed. -/
theorem Hosts.wrapper_of_owned {act : Act} {p : ConstructionPlan} {args : List Value}
    (hw : w.Hosts c d) (hq : ClassDecl.Backs w.schema c d true q F m k)
    (h : w.Assembles c d act o p depth w₁ args w')
    (hbodies : Situation.Leaves (Lasts Value.IsObject o k) ⟨w, act, []⟩) :
    (∃ y, w'.heap.field? o k = some (.object y)) ∨
      w.schema.isAbstract F = true ∧ w.Announces (w.schema.name F) w' := by
  obtain ⟨ctor, hctor, hp⟩ := h.plan
  obtain ⟨step, hstep, rfl, rfl, htarget⟩ := hq.built rfl ctor hctor p hp
  rcases h.built hw hbodies hq.own hstep with hy | ⟨hlookup, htold⟩
  · exact .inl hy
  · refine .inr ⟨?_, htold⟩
    cases habstract : w.schema.isAbstract step.fieldType with
    | true => rfl
    | false =>
      rw [htarget habstract] at hlookup
      cases hlookup

end

/-- In a world that has come about from nothing, the published descriptor of an abstract class is that of
its implementation, and the world knows the class of that. -/
theorem Arises.exists_implementation {w : World} (harises : w.Arises) {reg : RegistryId}
    {registry : Registry} (hr : w.registries[reg]? = some registry) {t : Ty} {e : DescriptorId}
    {x : Descriptor} (hc : registry.cached? t = some e) (hx : w.descriptors[e]? = some x)
    (ht : w.schema.isAbstract t = true) :
    ∃ (base : ClassDecl) (i : Implementation) (h₀ : Heap) (report : Report) (c : ClassId),
      x.product = .cls c ∧
      i.Realizes (registry.workshop reg h₀) w.schema (w.quiet.entries reg registry) w.session t base ∧
      x = i.descriptor (registry.workshop reg h₀) report x.product ∧
      w.Hosts c (i.decl w.schema) := by
  obtain ⟨⟨_, hruns⟩, htidy⟩ := harises.comes_about
  have hsound : w.quiet.Sound := Scene.sound_of_runs hruns
  obtain ⟨base, i, h₀, report, hbase, -, hi, hd, hdesc⟩ :=
    (hsound.registries hr).exists_implementation hc hx ht
  have hd : w.schema.decl? x.product = some (i.decl w.schema) := hd
  have hbase : w.schema.decl? t = some base := hbase
  obtain ⟨c, hproduct, -⟩ := Schema.lt_size_of_decl? hd
  obtain ⟨b, rfl, -⟩ := Schema.lt_size_of_decl? hbase
  rw [hproduct] at hd
  exact ⟨base, i, h₀, report, c, hproduct, hi, hdesc, hsound, Scene.sorted_of_runs hruns, htidy, hd,
    hi.keeps hi.type (hi.base ▸ hbase)⟩

/-- **What the field for a wrapper holds.** In a world that has come about from nothing, an abstract
class has a descriptor, and a property of the class has a replacement type with a value member. Then
the instances have a field for a wrapper. As long as that holds a wrapper, the property is read and
written through the member, whatever else has been done; while it is null, neither succeeds.

If the replacement type is a value type, or is mapped, then a new instance holds a wrapper, unless the
type is abstract and a creation of it has failed meanwhile, which observers have been told. If it is a
class that is shared by reference and not mapped, then a new instance holds none. Both are as far as
the bodies of users that are run in the course of the creation leave the field as it is. -/
theorem wrapper_fields {w : World} (harises : w.Arises) {reg : RegistryId} {registry : Registry}
    (hr : w.registries[reg]? = some registry) {t : Ty} {e : DescriptorId} {x : Descriptor}
    (hc : registry.cached? t = some e) (hx : w.descriptors[e]? = some x)
    (ht : w.schema.isAbstract t = true) {a F : Ty} {q : PropertyDecl} {m : ValueMember}
    (hq : (a, q) ∈ w.schema.publicProperties t) (ha : q.isAbstract = true)
    (hm : registry.provider.Chooses w.schema t q F (some m)) {given : Option CarrierId}
    (hgiven : ∀ k ∈ given, (Value.carrier k).Known w.heap) :
    ∃ k f, (w.schema.fields x.product)[k]? = some f ∧ f.name = backingName q.name ∧ f.type = F ∧
      ∀ depth o w', Run.create depth x given w = (.ok (.created o), w') →
        (∀ w'', w'.Grows w'' →
          (∀ y, w''.heap.field? o k = some (.object y) → w''.Reaches o q m y) ∧
          (w''.heap.field? o k = some .null → w''.Lacks o q m)) ∧
        ∃ v, w'.heap.field? o k = some v ∧
          (w.schema.isValueType F = true ∨ registry.provider.owns w.schema F = true →
            (∀ act ∈ x.creating given, Situation.Leaves (Lasts Value.IsObject o k) ⟨w, act, []⟩) →
            v.IsObject ∨ registry.provider.owns w.schema F = true ∧
              w.schema.isAbstract F = true ∧ w.Announces (w.schema.name F) w') ∧
          (w.schema.isValueType F = false → registry.provider.owns w.schema F = false →
            (∀ act ∈ x.creating given, Situation.Leaves (Lasts (· = .null) o k) ⟨w, act, []⟩) →
            v = .null) := by
  obtain ⟨base, i, h₀, -, c, hproduct, hi, -, hw⟩ := harises.exists_implementation hr hc hx ht
  have hd := hw.cls
  obtain ⟨k, hbacks⟩ : ∃ k, ClassDecl.Backs w.schema c (i.decl w.schema)
      (registry.provider.owns w.schema F) q F m k := hi.backs hd hq ha hm
  have hclass : w.schema.isClass F = true := Schema.isClass_of_valueMember? hm.valueMember?
  refine ⟨k, ⟨backingName q.name, F, false, w.schema.blank F⟩, ?_, rfl, rfl,
    fun depth o w' hrun => ?_⟩
  · rw [hproduct, Schema.fields, show w.schema.decl? (.cls c) = _ from hd]
    exact hbacks.field
  obtain ⟨hgrows, hinstance⟩ := create_class hrun
  rw [hproduct] at hinstance
  obtain ⟨act, hact, p, n, w₁, args, hassembles⟩ := hw.exists_assembles hproduct hgiven hrun
  obtain ⟨v₁, hv₁, -⟩ := hw.newObject_field hassembles.new hbacks.field
  have hfields : p.runFrom (Calls.nested n) o p.steps (p.carriers args) w₁ = (.ok (), w') :=
    hassembles.run
  -- the field is there as soon as the object is, and no run removes it
  have hgrows₁ : w₁.Grows w' := runFrom_grows hfields
  obtain ⟨v, hv⟩ := hgrows₁.heap.exists_field? hv₁
  have hclosed : w.schema.Closed := hw.sound.proper.closed
  have hforwards : ∀ {w'' u}, w'.Grows w'' → w''.heap.field? o k = some u → w''.Forwards o q m u :=
    fun hlater hu => hw.forwards (hclosed.declares_property hq) hbacks (hgrows.trans hlater)
      (hlater.classOf hinstance) hu
  refine ⟨fun w'' hlater => ⟨fun y hy => (hforwards hlater hy).reaches,
    fun hnull => (hforwards hlater hnull).lacks⟩, v, hv, fun hF hbodies => ?_,
    fun hF ho hbodies => ?_⟩
  · cases ho : registry.provider.owns w.schema F with
    | true =>
      rw [ho] at hbacks
      rcases hw.wrapper_of_owned hbacks hassembles (hbodies act hact) with ⟨y, hy⟩ | hfailed
      · exact .inl ⟨y, Option.some.inj (hv.symm.trans hy)⟩
      · exact .inr ⟨rfl, hfailed⟩
    | false =>
      rw [ho] at hbacks hF
      have hvalue := hF.resolve_right Bool.false_ne_true
      obtain ⟨y, hy⟩ := hw.wrapper_of_isValueType hbacks hvalue hassembles (hbodies act hact)
      exact .inl ⟨y, Option.some.inj (hv.symm.trans hy)⟩
  · rw [ho] at hbacks
    have hnull := hw.null_of_unowned hbacks hF hclass hassembles (hbodies act hact)
    exact Option.some.inj (hv.symm.trans hnull)

end World

/-! ### Scenes -/

namespace Scene

/-- A property that is kept in a wrapper of a class. -/
def wrappedProperty (name : String) (c : ClassId) : PropertyDecl :=
  { World.forestProperty (.scalar (.integer .i32)) with name, attributes := [.mapType (.cls c)] }

/-- Drafts of two classes with a value, of which the first is not mapped, and of an abstract class with a
property for each that is kept in an instance. -/
def cofferDrafts : List ClassDraft :=
  [{ name := "Coffer.Seal", interfaces := [nullableInterface]
     members := [.auto "Value" (.scalar (.integer .i32)), .defaultConstructor] },
   { name := "Coffer.Lock"
     members := [.auto "Value" (.scalar (.integer .i32)), .defaultConstructor] },
   { name := "Coffer.Box", isAbstract := true
     members := [.property (wrappedProperty "Seal" 0), .property (wrappedProperty "Lock" 1),
       .defaultConstructor] }]

/-- The world in which `Coffer.Box` has been implemented. -/
def coffer : World := asked cofferDrafts (.cls 2)

theorem coffer_canDeclare : CanDeclare {} cofferDrafts := by decide +kernel

theorem coffer_arises : coffer.Arises :=
  asked_arises coffer_canDeclare (by decide) (by decide) (by decide +kernel) (.cls 2)

/-- The member of both that has the value. -/
def cofferValue : ValueMember := ⟨valueName, .scalar (.integer .i32), .property true true⟩

/-- No body of a user is run when a `Coffer.Box` is created. -/
theorem coffer_leaves {R : World → World → Prop} {x : Descriptor}
    (hx : coffer.descriptors[0]? = some x) :
    ∀ act ∈ x.creating none, Situation.Leaves R ⟨coffer, act, []⟩ := by
  have hsurvey : (coffer.descriptors[0]?).all (fun x => (x.creating none).all fun act =>
      Situation.survey (Calls.nested 8) (fun m => !m.act.isUser) 8 ⟨coffer, act, []⟩) = true := by
    decide +kernel
  exact fun act hact => .of_survey (World.all_creating hsurvey hx act hact)

/-- A box comes with a lock, and without a seal. -/
theorem wrapper_fields_coffer : ∃ x w, coffer.descriptors[0]? = some x ∧
    (∀ depth, 4 ≤ depth → Run.create depth x none coffer = (.ok (.created 0), w)) ∧
    w.Lacks 0 (wrappedProperty "Seal" 0) cofferValue ∧
    ∃ y, w.Reaches 0 (wrappedProperty "Lock" 1) cofferValue y := by
  obtain ⟨registry, x, hr, hc, hx, -, -⟩ := exists_published (w := coffer) (r := 0) (t := .cls 2)
    (e := 0) (p := .cls 3) rfl rfl
  have hprovider : (coffer.registries[0]?).map Registry.provider = some .attributes := rfl
  rw [hr] at hprovider
  obtain ⟨w, hcreate, -⟩ := World.create_leaves_of_depth none 4 (.created 0) (fun _ => true)
    (by decide +kernel) hx
  have hseal : registry.provider.Chooses coffer.schema (.cls 2) (wrappedProperty "Seal" 0) (.cls 0)
      (some cofferValue) := by
    have hfirst : Provider.attributes.overrides (.cls 2) (wrappedProperty "Seal" 0) =
      [] ++ .cls 0 :: [] := rfl
    rw [Option.some.inj hprovider]
    exact .replaced hfirst (fun _ hu => nomatch hu) (by decide +kernel)
  have hlock : registry.provider.Chooses coffer.schema (.cls 2) (wrappedProperty "Lock" 1) (.cls 1)
      (some cofferValue) := by
    have hfirst : Provider.attributes.overrides (.cls 2) (wrappedProperty "Lock" 1) =
      [] ++ .cls 1 :: [] := rfl
    rw [Option.some.inj hprovider]
    exact .replaced hfirst (fun _ hu => nomatch hu) (by decide +kernel)
  have hnone : ∀ k ∈ (none : Option CarrierId), (Value.carrier k).Known coffer.heap :=
    fun _ hk => nomatch hk
  refine ⟨x, w, hx, hcreate, ?_, ?_⟩
  · obtain ⟨k, f, -, -, -, hfield⟩ := World.wrapper_fields coffer_arises hr hc hx (by decide +kernel)
      (a := .cls 2) (.head _) rfl hseal hnone
    obtain ⟨hlater, v, hv, -, hnull⟩ := hfield 4 0 w (hcreate 4 (Nat.le_refl 4))
    have howns : registry.provider.owns coffer.schema (.cls 0) = false := by
      rw [Option.some.inj hprovider]
      decide +kernel
    exact (hlater w (.refl w)).2 (hv.trans (congrArg some
      (hnull (by decide +kernel) howns (coffer_leaves hx))))
  · obtain ⟨k, f, -, -, -, hfield⟩ := World.wrapper_fields coffer_arises hr hc hx (by decide +kernel)
      (a := .cls 2) (.tail _ (.head _)) rfl hlock hnone
    obtain ⟨hlater, v, hv, hobject, -⟩ := hfield 4 0 w (hcreate 4 (Nat.le_refl 4))
    have howns : registry.provider.owns coffer.schema (.cls 1) = true := by
      rw [Option.some.inj hprovider]
      decide +kernel
    -- a lock is not abstract
    have hconcrete : coffer.schema.isAbstract (.cls 1) = false := by decide +kernel
    rcases hobject (.inr howns) (coffer_leaves hx) with ⟨y, hy⟩ | ⟨-, habstract, -⟩
    · exact ⟨y, (hlater w (.refl w)).1 y (hv.trans (congrArg some hy))⟩
    · rw [hconcrete] at habstract
      cases habstract

/-- Drafts of wrappers, and of an abstract class with a property for each but the first. An instance of
`Hutch.Gear` cannot be created, `Hutch.Seal` is not mapped, and the constructor of `Hutch.Box` takes
its lid away, and puts a coin where the note is. -/
def hutchDrafts : List ClassDraft :=
  let number : Ty := .scalar (.integer .i32)
  -- a new coin without a value
  let refused : Term := .construct (some (.cls 0)) 0 [.value .null]
  [Nullable.draft "Hutch.Coin" (.integer .i32) true,
   { name := "Hutch.Seal", interfaces := [nullableInterface]
     members := [.auto "Value" number, .defaultConstructor] },
   { name := "Hutch.Gear", isAbstract := true
     members := [.auto "Value" number, .constructor
       { params := [.carrier], isPublic := true, body := .routine [.throw "worn"] }] },
   { name := "Hutch.Lid", members := [.auto "Value" number, .defaultConstructor] },
   { name := "Hutch.Glass"
     members := [.property
       { name := "Value", type := number
         getter := some (.body (.routine [.give refused]))
         setter := some (.body (.routine [.give refused])) }, .defaultConstructor] },
   { name := "Hutch.Tint"
     members := [.property
       { name := "Value", type := .enum 0
         getter := some (.body (.routine [.give (.value .null)]))
         setter := some (.body (.routine [])) }, .defaultConstructor] },
   { name := "Hutch.Note", members := [.auto "Value" (.scalar .text), .defaultConstructor] },
   { name := "Hutch.Box", isAbstract := true
     members := [.property (wrappedProperty "Seal" 1),
       .property { wrappedProperty "Gear" 2 with
         attributes := [.mapType (.cls 2), .parameters [.ofBool true]] },
       .property (wrappedProperty "Lid" 3), .property (wrappedProperty "Glass" 4),
       .property (wrappedProperty "Tint" 5),
       .property { wrappedProperty "Note" 6 with type := .scalar .text },
       .constructor
         { params := [], isPublic := true
           body := .routine [.setField "_Lid" (.value .null),
             .setField "_Note" (.construct (some (.cls 0)) 1 [])] }] }]

/-- The world in which `Hutch.Box` has been implemented, and `Hutch.Gear` with it. -/
def hutch : World :=
  let shades : Schema := { enums := #[⟨"Hutch.Shade", .integer .i32, []⟩] }
  World.request
    { schema := addDrafts shades hutchDrafts, registries := #[World.forestRegistry] } 0 (.cls 7)

/-- The world in which an instance has been created. -/
def hutchBox : World := hutch.afterCreation 4 1

/-- A number that is written. -/
def hutchNumber : Value := .scalar (.integer (.zero .i32))

/-- What reading a property of the instance comes to, and writing a value to it. -/
def hutchAccess (name : String) (v : Value) : Except Halt Value × Except Halt Unit :=
  ((Run.getProperty 4 0 name hutchBox).1, (Run.setProperty 4 0 name v hutchBox).1)

/-- A field for a wrapper can be null, since the class is not mapped, since a creation of it has failed,
or since a body of a user has emptied the field; then nothing can be read or written. And where it
holds an object, access can still fail for null: since a body of a user does that is the accessor of
the member, since the member reads as null, or since it does not admit null. -/
theorem hutch_lacks_wrappers : ∃ x, hutch.descriptors[1]? = some x ∧ x.isSynthesized = true ∧
    (∀ depth, 4 ≤ depth → Run.create depth x none hutch = (.ok (.created 0), hutchBox)) ∧
    let missing : Halt := .fault (.nullReference "cannot access 'Value' of null")
    let refused : Halt := .fault (.nullReference "null cannot be stored as i32")
    (List.range 6).map (hutchBox.heap.field? 0 ·) = [some .null, some .null, some .null,
      some (.object 3), some (.object 4), some (.object 7)] ∧
    hutchBox.schema.cast hutchBox.heap hutchNumber (.scalar (.integer .i32)) = .ok hutchNumber ∧
    (∀ name ∈ ["Seal", "Gear", "Lid"],
      hutchAccess name hutchNumber = (.error missing, .error missing)) ∧
    hutchAccess "Glass" hutchNumber = (.error refused, .error refused) ∧
    (hutchAccess "Tint" hutchNumber).1 = .error refused ∧
    hutchBox.schema.cast hutchBox.heap .null (.scalar .text) = .ok .null ∧
    (hutchAccess "Note" .null).2 = .error refused := by
  obtain ⟨registry, x, -, -, hx, hs, -⟩ := exists_published (w := hutch) (r := 0) (t := .cls 7)
    (e := 1) (p := .cls 9) (by decide +kernel) (by decide +kernel)
  obtain ⟨w, hcreate, -⟩ := World.create_leaves_of_depth none 4 (.created 0) (fun _ => true)
    (by decide +kernel) hx
  have hbox : hutchBox = w := by
    rw [hutchBox, World.afterCreation, hx, Option.elim_some, hcreate 4 (Nat.le_refl 4)]
  rw [← hbox] at hcreate
  exact ⟨x, hx, hs, hcreate, by decide +kernel⟩

end Scene

end RecordForge
