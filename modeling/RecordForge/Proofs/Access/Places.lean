import RecordForge.Proofs.Access.Wrapper
import RecordForge.Proofs.Construction.Dispatch

/-!
# Where implementations keep their properties

An implementation keeps each property in a slot of its own, apart from the fields of its class
(`ClassDecl.Keeps`). A property without a replacement type is read and written there; one that is kept
in a nullable wrapper is read and written through the wrapper that the slot holds. Construction plans
store into slots of owned fields only, and those never hold wrappers by value.
-/

namespace RecordForge

/-- A replacement type is chosen for its value member. -/
theorem Provider.Chooses.valueMember? {v : Provider} {s : Schema} {t F : Ty} {p : PropertyDecl}
    {m : ValueMember} (h : v.Chooses s t p F (some m)) : s.valueMember? F p.type = some m := by
  generalize hm : some m = member at h
  cases h with
  | declared => cases hm
  | replaced _ _ h => exact hm ▸ h

/-- What has a value member is a class. -/
theorem Schema.isClass_of_valueMember? {s : Schema} {F t : Ty} {m : ValueMember}
    (h : s.valueMember? F t = some m) : s.isClass F = true := by
  rw [valueMember?] at h
  split at h
  · assumption
  · cases h

/-- Without a replacement type a field is of the type of its property. -/
theorem Provider.Chooses.eq_type {v : Provider} {s : Schema} {t F : Ty} {p : PropertyDecl}
    (h : v.Chooses s t p F none) : F = p.type := by
  cases h
  rfl

/-- A place for a class is blank, or holds an object of the class by value. -/
theorem Schema.blank_cls {s : Schema} {n : ClassId} {d : ClassDecl} (hd : s.class? n = some d) :
    s.blank (.cls n) =
      if d.isValueType then .record n (d.layout.map FieldDecl.blank) else .null := by
  rw [blank, hd]

/-! ## Slots -/

/-- The slot of its object that a getter reads. -/
def Getter.slot? : Getter → Option Nat
  | .slot k | .through k .. => some k
  | .routine _ | .isAbsent | .wrapped _ => none

/-- The slot of its object that a setter stores into, or whose value it writes to. -/
def Setter.slot? : Setter → Option Nat
  | .slot k | .slotOf k _ | .through k .. => some k
  | .routine _ | .wrapped _ => none

/-- A class declares a property with a getter. -/
def ClassDecl.Reads (d : ClassDecl) (name : String) (g : Getter) : Prop :=
  ∃ q ∈ d.properties, q.name = name ∧ q.getter = some (.body g)

/-- How an implementation keeps its properties: it is shared by reference, and reads each property
from a slot of its own, which is no slot of a field of its class. Its plans store into slots that are
blank. -/
structure ClassDecl.Keeps (s : Schema) (d : ClassDecl) : Prop where
  reference : d.isValueType = false
  own : ∀ {name g k}, d.Reads name g → g.slot? = some k → d.ownStart ≤ k
  apart : ∀ {name name' g g' k}, d.Reads name g → d.Reads name' g' → g.slot? = some k →
    g'.slot? = some k → name = name' ∧ g = g'
  plans : ∀ ctor ∈ d.constructors, ∃ p, ctor.body = .plan p
  planned : ∀ ctor ∈ d.constructors, ∀ p, ctor.body = .plan p → ∀ step ∈ p.steps,
    ∃ f, d.layout[step.slot]? = some f ∧ f.blank = .null
  base : ∀ ctor ∈ d.constructors, ∀ p, ctor.body = .plan p → ∀ b ∈ p.base,
    ∃ d', s.decl? b.target = some d' ∧ d'.layout.length ≤ d.ownStart

theorem ClassDecl.Keeps.mono {s s' : Schema} {d : ClassDecl} (h : d.Keeps s) (he : s.Extends s') :
    d.Keeps s' where
  reference := h.reference
  own := h.own
  apart := h.apart
  plans := h.plans
  planned := h.planned
  base ctor hctor p hp b hb := by
    obtain ⟨d', hd', hle⟩ := h.base ctor hctor p hp b hb
    exact ⟨d', Schema.decl?_mono he hd', hle⟩

section
variable {w : Workshop} {S : Schema} {cache : List (Ty × DescriptorId)} {σ : Session} {t a : Ty}
variable {base : ClassDecl} {i : Implementation} {p : PropertyDecl} {f f' : ForgedProperty}

/-! ## The plans of fields -/

/-- A field without a plan is not owned. -/
theorem FieldPlan.Realizes.not_owns {f : PropertyField}
    (h : FieldPlan.Realizes w S cache σ f none) : w.provider.owns S f.fieldType = false := by
  cases h with
  | free ho => exact ho

/-- The steps of a plan build the field. -/
theorem FieldPlan.Realizes.step_eq {f : PropertyField} {plan : FieldPlan}
    (h : FieldPlan.Realizes w S cache σ f (some plan)) {step : BuildStep}
    (hstep : step = plan.default ∨ plan.factory = some step) : ∃ source, step = f.step source := by
  obtain ⟨source, factory, rfl, -⟩ := h.eq
  rcases hstep with rfl | hstep
  · exact ⟨source, rfl⟩
  · exact ⟨factory, (Option.some.inj hstep).symm⟩

/-- They construct the class of the field itself if that is not abstract. -/
theorem FieldPlan.Realizes.target?_of_step {f : PropertyField} {plan : FieldPlan}
    (h : FieldPlan.Realizes w S cache σ f (some plan)) {step : BuildStep}
    (hstep : step = plan.default ∨ plan.factory = some step)
    (hconcrete : S.isAbstract f.fieldType = false) : step.source.target? = some f.fieldType := by
  obtain ⟨source, factory, rfl, htargets⟩ := h.eq
  rcases hstep with rfl | hstep
  · exact (htargets hconcrete).1
  · exact Option.some.inj hstep ▸ (htargets hconcrete).2

/-- A plan tells the value of the field its property, if the field's type asks for it. -/
theorem FieldPlan.Realizes.info_eq {f : PropertyField} {plan : FieldPlan}
    (h : FieldPlan.Realizes w S cache σ f (some plan)) : plan.info = FieldPlan.info? S f := by
  obtain ⟨source, factory, rfl, -⟩ := h.eq
  rfl

/-! ## The fields of an implementation -/

namespace Implementation.Realizes

variable (hi : i.Realizes w S cache σ t base)
include hi

/-- The field of a property follows the fields of the class. -/
theorem layout_slot (hf : f ∈ i.properties) :
    (i.decl S).ownStart ≤ f.field.slot ∧
      (i.decl S).layout[f.field.slot]? = some (f.fieldDecl S) := by
  obtain ⟨j, hj⟩ := List.mem_iff_getElem?.mp hf
  have hlt : j < i.properties.length := (List.getElem?_eq_some_iff.mp hj).1
  have hslots := hi.properties.slots
  rw [← hi.base] at hslots
  have hslot : f.field.slot = i.base.layout.length + j := by
    have hmap : (i.properties.map fun f => f.field.slot)[j]? = some f.field.slot := by
      rw [List.getElem?_map, hj]
      rfl
    rw [hslots, List.getElem?_range' hlt, Nat.one_mul] at hmap
    exact (Option.some.inj hmap).symm
  rw [hslot]
  refine ⟨Nat.le_add_right .., ?_⟩
  show (i.base.layout ++ i.properties.map (ForgedProperty.fieldDecl S))[_]? = _
  rw [List.getElem?_append_right (Nat.le_add_right ..), Nat.add_sub_cancel_left, List.getElem?_map, hj]
  rfl

/-- A property has its plan from its field. -/
theorem plan_realizes {plan : FieldPlan} (hf : f ∈ i.properties) (hfp : f.plan = some plan) :
    FieldPlan.Realizes w S cache σ f.field (some plan) := by
  obtain ⟨q, -, k, hreal⟩ := hi.properties.mem hf
  exact hfp ▸ hreal.plan

/-- Properties with one slot are one. -/
theorem eq_of_slot (hf : f ∈ i.properties) (hf' : f' ∈ i.properties)
    (hslot : f.field.slot = f'.field.slot) : f = f' := by
  have hnodup : (i.properties.map fun f => f.field.slot).Nodup := by
    rw [hi.properties.slots]
    exact List.nodup_range'
  exact List.inj_on_of_nodup_map hnodup hf hf' hslot

omit hi in
/-- What an implementation declares belongs to one of its properties. -/
theorem exists_of_reads {name : String} {g : Getter} (h : (i.decl S).Reads name g) :
    ∃ f ∈ i.properties, f.field.property.name = name ∧ g = f.field.getter S := by
  obtain ⟨q, hq, rfl, hg⟩ := h
  obtain ⟨f, hf, rfl⟩ := List.mem_map.mp hq
  exact ⟨f, hf, rfl, (Accessor.body.inj (Option.some.inj hg)).symm⟩

omit hi in
theorem slot?_getter (f : PropertyField) : (f.getter S).slot? = some f.slot := by
  rw [PropertyField.getter]
  cases f.member <;> rfl

omit hi in
theorem slot?_setter {g : Setter} (h : f.field.setter? f.shape = some g) :
    g.slot? = some f.field.slot := by
  cases hs : f.shape <;> rw [hs] at h <;> cases h <;> rfl

/-- A step of a plan builds an owned field, which is blank. -/
theorem blank_of_plan {plan : FieldPlan} (hf : f ∈ i.properties) (hp : f.plan = some plan)
    {step : BuildStep} (hstep : step = plan.default ∨ plan.factory = some step) :
    ∃ fd, (i.decl S).layout[step.slot]? = some fd ∧ fd.blank = .null := by
  have hrealizes := hi.plan_realizes hf hp
  obtain ⟨source, rfl⟩ := hrealizes.step_eq hstep
  obtain ⟨d, hd, hvalue, -⟩ := Provider.exists_of_owns hrealizes.owns
  obtain ⟨F, hF, -⟩ := Schema.lt_size_of_decl? hd
  refine ⟨_, (hi.layout_slot hf).2, ?_⟩
  show S.blank f.field.fieldType = .null
  rw [hF] at hd ⊢
  rw [Schema.blank_cls hd, if_neg (by simp [hvalue])]

omit hi in
/-- The body of a constructor of an implementation is a plan: it builds fields of the implementation,
and runs a constructor of the class. -/
theorem exists_plan {ctor : ConstructorDecl} (hctor : ctor ∈ (i.decl S).constructors) :
    ∃ p, ctor.body = .plan p ∧
      (∀ step ∈ p.steps, ∃ f ∈ i.properties, ∃ plan, f.plan = some plan ∧
        (step = plan.default ∨ plan.factory = some step)) ∧
      ∀ b ∈ p.base, b.target = i.type := by
  have hplan : ∀ {plan}, plan ∈ i.plans → ∃ f ∈ i.properties, f.plan = some plan :=
    List.mem_filterMap.mp
  rcases List.mem_pair.mp hctor with rfl | rfl
  · refine ⟨_, rfl, fun step hstep => ?_, fun b hb => ?_⟩
    · obtain ⟨plan, hp, rfl⟩ := List.mem_map.mp hstep
      obtain ⟨f, hf, hfp⟩ := hplan hp
      exact ⟨f, hf, plan, hfp, .inl rfl⟩
    · obtain ⟨_, -, rfl⟩ := Option.map_eq_some_iff.mp hb
      rfl
  · refine ⟨_, rfl, fun step hstep => ?_, fun b hb => ?_⟩
    · obtain ⟨plan, hp, hfactory⟩ := List.mem_filterMap.mp hstep
      obtain ⟨f, hf, hfp⟩ := hplan hp
      exact ⟨f, hf, plan, hfp, .inr hfactory⟩
    · rcases Option.or_eq_some_iff.mp hb with hb | ⟨-, hb⟩
      all_goals
        obtain ⟨_, -, rfl⟩ := Option.map_eq_some_iff.mp hb
        rfl

/-- Both constructors of an implementation have a step for each property with a plan: the one that the
plan has for them. -/
theorem exists_planned_step {plan : FieldPlan} (hf : f ∈ i.properties) (hfp : f.plan = some plan)
    {ctor : ConstructorDecl} (hctor : ctor ∈ (i.decl S).constructors) {p : ConstructionPlan}
    (hp : ctor.body = .plan p) : ∃ step ∈ p.steps,
      p.takesCarrier = false ∧ step = plan.default ∨
        p.takesCarrier = true ∧ plan.factory = some step := by
  have hrealizes := hi.plan_realizes hf hfp
  obtain ⟨source, factory, rfl, -⟩ := hrealizes.eq
  have hplan : _ ∈ i.plans := List.mem_filterMap.mpr ⟨f, hf, hfp⟩
  rcases List.mem_pair.mp hctor with rfl | rfl
  · obtain rfl := ConstructorBody.plan.inj hp
    exact ⟨_, List.mem_map.mpr ⟨_, hplan, rfl⟩, .inl ⟨rfl, rfl⟩⟩
  · obtain rfl := ConstructorBody.plan.inj hp
    exact ⟨_, List.mem_filterMap.mpr ⟨_, hplan, rfl⟩, .inr ⟨rfl, rfl⟩⟩

/-- The steps construct the class of the field itself if that is not abstract. -/
theorem exists_step {plan : FieldPlan} (hf : f ∈ i.properties) (hfp : f.plan = some plan)
    {ctor : ConstructorDecl} (hctor : ctor ∈ (i.decl S).constructors) {p : ConstructionPlan}
    (hp : ctor.body = .plan p) : ∃ source, f.field.step source ∈ p.steps ∧
      (S.isAbstract f.field.fieldType = false → source.target? = some f.field.fieldType) := by
  have hrealizes := hi.plan_realizes hf hfp
  obtain ⟨step, hstep, hplanned⟩ := hi.exists_planned_step hf hfp hctor hp
  have hplanned := hplanned.imp And.right And.right
  obtain ⟨source, rfl⟩ := hrealizes.step_eq hplanned
  exact ⟨source, hstep, hrealizes.target?_of_step hplanned⟩

/-- They have none that stores into the slot of another property. -/
theorem slot_ne (hf : f ∈ i.properties) (hfp : f.plan = none) {ctor : ConstructorDecl}
    (hctor : ctor ∈ (i.decl S).constructors) {p : ConstructionPlan} (hp : ctor.body = .plan p) :
    ∀ step ∈ p.steps, step.slot ≠ f.field.slot := by
  intro step hstep hslot
  obtain ⟨p', hp', hsteps, -⟩ := exists_plan hctor
  obtain rfl := ConstructorBody.plan.inj (hp'.symm.trans hp)
  obtain ⟨f', hf', plan, hfp', hplan⟩ := hsteps step hstep
  have hrealizes := hi.plan_realizes hf' hfp'
  obtain ⟨source, rfl⟩ := hrealizes.step_eq hplan
  obtain rfl := hi.eq_of_slot hf' hf hslot
  rw [hfp] at hfp'
  cases hfp'

/-- **An implementation keeps its properties** in slots of their own. -/
theorem keeps {b : ClassId} (htype : i.type = .cls b) (hbase : S.class? b = some i.base) :
    (i.decl S).Keeps S where
  reference := rfl
  own {name g k} hg hk := by
    obtain ⟨f, hf, -, rfl⟩ := exists_of_reads hg
    obtain rfl := Option.some.inj ((slot?_getter f.field).symm.trans hk)
    exact (hi.layout_slot hf).1
  apart {name name' g g' k} hg hg' hk hk' := by
    obtain ⟨f, hf, rfl, rfl⟩ := exists_of_reads hg
    obtain ⟨f', hf', rfl, rfl⟩ := exists_of_reads hg'
    rw [slot?_getter] at hk hk'
    obtain rfl := hi.eq_of_slot hf hf' (Option.some.inj (hk.trans hk'.symm))
    exact ⟨rfl, rfl⟩
  plans ctor hctor := by
    obtain ⟨p, hp, -⟩ := exists_plan hctor
    exact ⟨p, hp⟩
  planned ctor hctor p hp step hstep := by
    obtain ⟨p', hp', hsteps, -⟩ := exists_plan hctor
    obtain rfl := ConstructorBody.plan.inj (hp'.symm.trans hp)
    obtain ⟨f, hf, plan, hfp, hplan⟩ := hsteps step hstep
    exact hi.blank_of_plan hf hfp hplan
  base ctor hctor p hp b' hb' := by
    obtain ⟨p', hp', -, htarget⟩ := exists_plan hctor
    obtain rfl := ConstructorBody.plan.inj (hp'.symm.trans hp)
    rw [htarget b' hb', htype]
    exact ⟨i.base, hbase, Nat.le_refl _⟩

end Implementation.Realizes

/-! ## How properties are read and written -/

/-- A property of an abstract class is kept in a slot of its implementation: directly, or in the
value of a nullable wrapper that can be written. -/
inductive Provider.Stores (v : Provider) (s : Schema) (t : Ty) (p : PropertyDecl) : Prop
  | direct (h : v.Chooses s t p p.type none)
  | wrapped {F : ClassId} {name : String} {k : Kind}
      (hF : s.class? F = some (Nullable.decl name k true))
      (h : v.Chooses s t p (.cls F) (some (Nullable.member k true)))

/-- What the accessors of a stored property do with a slot. -/
inductive Schema.Accesses (s : Schema) (d : ClassDecl) (product : Ty) (p : PropertyDecl) (k : Nat) :
    Prop
  | direct (hlt : k < d.layout.length) (hread : d.Reads p.name (.slot k))
      (hget : s.getterFor product p.name = .ok (.slot k))
      (hset : s.setterFor product p.name = .ok (.slotOf k p.type))
  | wrapped {F : ClassId} {name : String} {κ : Kind} {f : FieldDecl}
      (hF : s.class? F = some (Nullable.decl name κ true))
      (htype : p.type = .scalar κ ∨ s.underlying? p.type = some κ)
      (hlayout : d.layout[k]? = some f)
      (hblank : f.blank = .record F ((Nullable.decl name κ true).layout.map FieldDecl.blank))
      (hread : d.Reads p.name (.through k (Nullable.member κ true) none))
      (hget : s.getterFor product p.name = .ok (.through k (Nullable.member κ true) none))
      (hset : s.setterFor product p.name = .ok (.through k (Nullable.member κ true) p.type))

namespace ForgedProperty.Realizes

variable {slot : Nat}

/-- A property without a replacement type is read from its slot, and written there. -/
theorem accessors_direct (hf : f.Realizes w S cache σ t p slot) (hmember : f.field.member = none) :
    f.field.getter S = .slot f.field.slot ∧
      f.field.setter? f.shape = some (.slotOf f.field.slot f.field.property.type) := by
  have hshape := hf.shape
  rw [PropertyField.setterShape, hmember] at hshape
  obtain hdirect : .direct = f.shape := Except.ok.inj hshape
  refine ⟨by rw [PropertyField.getter, hmember], ?_⟩
  rw [← hdirect]
  rfl

/-- One with a replacement type is read through the value member of that, and written through the
member if that can be written. -/
theorem accessors_through {m : ValueMember} (hf : f.Realizes w S cache σ t p slot)
    (hmember : f.field.member = some m) :
    f.field.getter S = .through f.field.slot m (f.field.castType? S m) ∧ (m.isWritable = true →
      f.field.setter? f.shape = some (.through f.field.slot m f.field.property.type)) := by
  refine ⟨by rw [PropertyField.getter, hmember], fun hm => ?_⟩
  have hshape := hf.shape
  rw [PropertyField.setterShape, hmember] at hshape
  dsimp only at hshape
  rw [if_pos hm] at hshape
  obtain hthrough : .through m = f.shape := Except.ok.inj hshape
  rw [← hthrough]
  rfl

/-- One that is kept in a nullable wrapper is read and written through the value of the wrapper, which is
of the kind of the property. -/
theorem accessors_wrapped {κ : Kind} (hf : f.Realizes w S cache σ t p slot)
    (hmember : f.field.member = some (Nullable.member κ true)) :
    (f.field.property.type = .scalar κ ∨ S.underlying? f.field.property.type = some κ) ∧
      f.field.getter S = .through f.field.slot (Nullable.member κ true) none ∧
      f.field.setter? f.shape =
        some (.through f.field.slot (Nullable.member κ true) f.field.property.type) := by
  obtain ⟨hgetter, hsetter⟩ := hf.accessors_through hmember
  have htype : f.field.property.type = .scalar κ ∨ S.underlying? f.field.property.type = some κ := by
    obtain ⟨F, m, hchooses, hfield⟩ := hf.eq
    rw [hfield] at hmember ⊢
    obtain rfl : m = some (Nullable.member κ true) := hmember
    exact Schema.type_of_member hchooses.valueMember? rfl
  rw [PropertyField.castType?_eq_none htype rfl] at hgetter
  exact ⟨htype, hgetter, hsetter rfl⟩

end ForgedProperty.Realizes

namespace Implementation.Realizes

variable {c : ClassId} (hi : i.Realizes w S cache σ t base) (hd : S.class? c = some (i.decl S))
variable (hf : f ∈ i.properties)
include hi hd hf

/-- Dispatch on an implementation finds the getters that it declares. -/
theorem getterFor_own : S.getterFor (.cls c) f.field.property.name = .ok (f.field.getter S) := by
  have hdecl : f.decl S ∈ (i.decl S).properties := List.mem_map_of_mem hf
  have hget : S.getterFor (.cls c) (f.decl S).name = _ :=
    Schema.getterFor_own hd hi.nodup_properties hdecl rfl
  exact hget

/-- It finds the setters, too. -/
theorem setterFor_own {g : Setter} (hg : f.field.setter? f.shape = some g) :
    S.setterFor (.cls c) f.field.property.name = .ok g := by
  have hdecl : f.decl S ∈ (i.decl S).properties := List.mem_map_of_mem hf
  have hbody : (f.decl S).setter = some (.body g) := by
    rw [ForgedProperty.decl, hg]
    rfl
  have hset : S.setterFor (.cls c) (f.decl S).name = _ :=
    Schema.setterFor_own hd hi.nodup_properties hdecl hbody
  exact hset

end Implementation.Realizes

/-- **How a stored property is read and written** on an implementation. -/
theorem Implementation.Realizes.accesses {product : Ty} (hi : i.Realizes w S cache σ t base)
    (hd : S.decl? product = some (i.decl S)) (hp : (a, p) ∈ S.publicProperties t)
    (ha : p.isAbstract = true) (hstores : w.provider.Stores S t p) :
    ∃ k, S.Accesses (i.decl S) product p k := by
  obtain ⟨c, rfl, -⟩ := Schema.lt_size_of_decl? hd
  obtain ⟨f, hf, j, hreal⟩ :=
    hi.properties.exists_of_mem (Schema.mem_abstractProperties.mpr ⟨⟨a, hp⟩, ha⟩)
  obtain ⟨F, member, hchooses, hfield⟩ := hreal.eq
  have hproperty : f.field.property = p := by rw [hfield]
  have hreads : (i.decl S).Reads f.field.property.name (f.field.getter S) :=
    ⟨_, List.mem_map_of_mem hf, rfl, rfl⟩
  have hget := hi.getterFor_own hd hf
  have hlayout := (hi.layout_slot hf).2
  refine ⟨f.field.slot, ?_⟩
  cases hstores with
  | direct h =>
    have hmember : f.field.member = none := by
      rw [hfield]
      exact (hchooses.unique h).2
    obtain ⟨hgetter, hsetter⟩ := hreal.accessors_direct hmember
    have hset := hi.setterFor_own hd hf hsetter
    rw [hgetter] at hreads hget
    rw [hproperty] at hreads hget hset
    exact .direct (List.getElem?_eq_some_iff.mp hlayout).1 hreads hget hset
  | @wrapped n name κ hF h =>
    have hmember : f.field.member = some (Nullable.member κ true) := by
      rw [hfield]
      exact (hchooses.unique h).2
    obtain ⟨htype, hgetter, hsetter⟩ := hreal.accessors_wrapped hmember
    have hset := hi.setterFor_own hd hf hsetter
    rw [hgetter] at hreads hget
    rw [hproperty] at htype hreads hget hset
    have hblank : (f.fieldDecl S).blank =
        .record n ((Nullable.decl name κ true).layout.map FieldDecl.blank) := by
      have hfieldType : f.field.fieldType = .cls n := by
        rw [hfield]
        exact (hchooses.unique h).1
      show S.blank f.field.fieldType = _
      rw [hfieldType, Schema.blank_cls hF]
      rfl
    exact .wrapped hF htype hlayout hblank hreads hget hset

end

end RecordForge
