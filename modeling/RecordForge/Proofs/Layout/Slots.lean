import RecordForge.Proofs.Layout.Origins
import RecordForge.Proofs.Access.NullableMembers

/-!
# Slots that are worked out early

Bodies, construction plans and mappers reach fields by slot. A slot is worked out once: when a class is
declared or implemented, or when a member of it is looked up (`Schema.Captures`). It is used much later, on
instances of classes that may not have been declared by then.

Each class begins with the fields of its base, so a slot means the same field in all classes below. Hence
a slot that was worked out is there in every instance, and is the field that was meant
(`World.captured_slots_stay`).
-/

namespace RecordForge

/-! ## Fields of bases -/

namespace Schema

variable {s s' : Schema} {t a : Ty} {c : ClassId} {d d' : ClassDecl} {k : Nat} {f : FieldDecl}

/-- **A class begins with the fields** of each class above it. -/
theorem Formed.fields_prefix (hs : s.Formed) (ha : a ∈ s.ancestors t) : s.fields a <+: s.fields t := by
  rcases List.mem_cons.mp ha with rfl | hbase
  · exact List.prefix_refl _
  · obtain ⟨c, d, n, rfl, hc, rfl, hn⟩ := classes_of_mem_bases hbase
    obtain ⟨d', hd', -, hprefix, -⟩ := hs.exists_of_mem_bases hc hn
    rw [fields, fields, show s.decl? (.cls c) = some d from hc,
      show s.decl? (.cls n) = some d' from hd', Option.elim_some, Option.elim_some]
    exact hprefix

/-- So a slot of a class is the same field in all classes below. -/
theorem Formed.getElem?_fields (hs : s.Formed) (ha : a ∈ s.ancestors t)
    (hf : (s.fields a)[k]? = some f) : (s.fields t)[k]? = some f := by
  obtain ⟨rest, hrest⟩ := hs.fields_prefix ha
  have hlt : k < (s.fields a).length := (List.getElem?_eq_some_iff.mp hf).1
  rw [← hrest, List.getElem?_append_left hlt]
  exact hf

/-- The classes of a lineage are at or above the type. -/
theorem mem_ancestors_of_mem_lineage (h : (a, d) ∈ s.lineage t) : a ∈ s.ancestors t := by
  obtain ⟨u, hu, hd⟩ := List.mem_filterMap.mp h
  obtain ⟨d', -, he⟩ := Option.map_eq_some_iff.mp hd
  obtain ⟨rfl, -⟩ := Prod.mk.inj he
  exact hu

/-- A public field is found at its slot. -/
theorem Formed.getElem?_of_publicFields (hs : s.Formed) (h : (k, f) ∈ s.publicFields t) :
    (s.fields t)[k]? = some f := by
  obtain ⟨⟨a, d⟩, hl, hmem⟩ := List.mem_flatMap.mp h
  obtain ⟨⟨f', k'⟩, hfield, he⟩ := List.mem_map.mp hmem
  obtain ⟨rfl, rfl⟩ := Prod.mk.inj he
  have hlayout := List.mem_of_mem_drop (List.mem_filter.mp hfield).1
  refine hs.getElem?_fields (mem_ancestors_of_mem_lineage hl) ?_
  rw [fields, decl?_of_mem_lineage hl, Option.elim_some]
  exact List.mem_zipIdx_iff_getElem?.mp hlayout

/-- What can stand where a class is expected is at or below it. -/
theorem mem_ancestors_of_isAssignable (h : s.isAssignable t (.cls c) = true) :
    .cls c ∈ s.ancestors t := (isAssignable_iff.mp h).resolve_left Ty.noConfusion

theorem mem_of_pick {desired : Ty} {candidates : List ValueMember} {m : ValueMember}
    (h : s.pick desired candidates = some m) : m ∈ candidates := by
  rw [pick, Option.or_eq_some_iff, Option.or_eq_some_iff] at h
  rcases h with h | ⟨-, h | ⟨-, h⟩⟩ <;> exact List.mem_of_find?_eq_some h

/-- A value member that is a field is a public field. -/
theorem publicField_of_valueMember? {desired : Ty} {m : ValueMember}
    (h : s.valueMember? t desired = some m) (hk : m.place = .field k) :
    ∃ f, (k, f) ∈ s.publicFields t ∧ f.name = m.name ∧ f.type = m.type := by
  rw [valueMember?] at h
  split at h
  · rcases Option.or_eq_some_iff.mp h with h | ⟨-, h⟩
    · obtain ⟨⟨j, f⟩, hf, rfl⟩ := List.mem_map.mp (mem_of_pick h)
      obtain rfl := Place.field.inj hk
      exact ⟨f, hf, rfl, rfl⟩
    · obtain ⟨x, -, rfl⟩ := List.mem_map.mp (mem_of_pick h)
      cases hk
  · cases h

/-- It is the one in its slot. -/
theorem Formed.field_of_valueMember? (hs : s.Formed) {desired : Ty} {m : ValueMember}
    (h : s.valueMember? t desired = some m) (hk : m.place = .field k) :
    ∃ f, (s.fields t)[k]? = some f ∧ f.name = m.name ∧ f.type = m.type := by
  obtain ⟨f, hf, hmeant⟩ := publicField_of_valueMember? h hk
  exact ⟨f, hs.getElem?_of_publicFields hf, hmeant⟩

end Schema

/-- A mapper of a field has the slot of the field with that name. -/
theorem MemberMapper.field_of_make {s : Schema} {hooks : Hooks} {request : MemberMapper.Request}
    {m : MemberMapper} {k : Nat} (h : make s hooks request = .ok m) (hk : m.access = .field k) :
    ∃ f, (s.fields request.objectType)[k]? = some f ∧ f.name = request.member ∧
      f.type = m.memberType := by
  obtain ⟨member, writer, hmember, -, -, rfl⟩ := exists_of_make h
  have hk : member.access = .field k := hk
  rw [member?] at hmember
  split at hmember
  · obtain ⟨slot, hslot, hmember⟩ := Option.bind_eq_some_iff.mp hmember
    obtain ⟨f, hf, hmember⟩ := Option.bind_eq_some_iff.mp hmember
    obtain rfl := Option.some.inj hmember
    obtain rfl := MemberAccess.field.inj hk
    obtain ⟨hlt, hname, -⟩ := List.findIdx?_eq_some_iff_getElem.mp hslot
    obtain ⟨_, hget⟩ := List.getElem?_eq_some_iff.mp hf
    rw [hget] at hname
    exact ⟨f, hf, eq_of_beq hname, rfl⟩
  · obtain ⟨x, -, hmember⟩ := Option.bind_eq_some_iff.mp hmember
    obtain rfl := Option.some.inj hmember
    cases hk

/-! ## What is captured -/

/-- A getter gets along with the field in its slot: it reads the value of the property, or the member
that holds it. -/
def Getter.Suits (s : Schema) (field type : Ty) : Getter → Prop
  | .slot _ => field = type
  | .through _ m _ => s.valueMember? field type = some m
  | .routine _ | .isAbsent | .wrapped _ => True

/-- So does a setter. -/
def Setter.Suits (s : Schema) (field type : Ty) : Setter → Prop
  | .slot _ => field = type
  | .slotOf _ t => t = type ∧ field = type
  | .through _ m t => t = type ∧ s.valueMember? field type = some m
  | .routine _ | .wrapped _ => True

/-- A slot of a class that was worked out when the class came about, or when a member of it was looked
up, and what the field in it is taken for. -/
inductive Schema.Captures (s : Schema) (c : ClassId) (d : ClassDecl) :
    (slot : Nat) → (meant : FieldDecl → Prop) → Prop
  /-- By an accessor of a property that keeps itself. -/
  | auto {draft : ClassDraft} {name : String} {type : Ty} {q : PropertyDecl} {k : Nat}
      (hd : d.Drafted s c draft) (hm : .auto name type ∈ draft.members) (hq : q ∈ d.properties)
      (hname : q.name = name)
      (hk : q.getter = some (.body (.slot k)) ∨ q.setter = some (.body (.slot k))) :
      Captures s c d k fun f => f.name = backingName name ∧ f.type = type
  /-- By a getter of an implementation. -/
  | getter {q : PropertyDecl} {g : Getter} {k : Nat} (hd : d.isImplementation = true)
      (hq : q ∈ d.properties) (hg : q.getter = some (.body g)) (hk : g.slot? = some k) :
      Captures s c d k fun f => f.name = backingName q.name ∧ g.Suits s f.type q.type
  /-- By a setter of an implementation. -/
  | setter {q : PropertyDecl} {g : Setter} {k : Nat} (hd : d.isImplementation = true)
      (hq : q ∈ d.properties) (hg : q.setter = some (.body g)) (hk : g.slot? = some k) :
      Captures s c d k fun f => f.name = backingName q.name ∧ g.Suits s f.type q.type
  /-- By a step that builds a field. -/
  | build {ctor : ConstructorDecl} {p : ConstructionPlan} {step : BuildStep}
      (hd : d.isImplementation = true) (hctor : ctor ∈ d.constructors) (hp : ctor.body = .plan p)
      (hstep : step ∈ p.steps) :
      Captures s c d step.slot fun f => f.name = backingName step.property ∧ f.type = step.fieldType
  /-- By a step that tells the value of a field its property. -/
  | info {ctor : ConstructorDecl} {p : ConstructionPlan} {i : InfoStep}
      (hd : d.isImplementation = true) (hctor : ctor ∈ d.constructors) (hp : ctor.body = .plan p)
      (hi : i ∈ p.infos) :
      Captures s c d i.slot fun f => f.name = i.field ∧
        s.implementsInterface f.type receiverInterface = true
  /-- Among the slots of owned objects. -/
  | owned {slots : List Nat} {k : Nat} (hd : d.owned = some slots) (hk : k ∈ slots) :
      Captures s c d k fun f => s.isReferenceClass f.type = true
  /-- As the member of a wrapper that holds a value. -/
  | valueMember {desired : Ty} {m : ValueMember} {k : Nat}
      (hm : s.valueMember? (.cls c) desired = some m) (hk : m.place = .field k) :
      Captures s c d k fun f => f.name = m.name ∧ f.type = m.type
  /-- By the mapper of a field. -/
  | mapper {hooks : Hooks} {request : MemberMapper.Request} {m : MemberMapper} {k : Nat}
      (ht : request.objectType = .cls c) (hm : MemberMapper.make s hooks request = .ok m)
      (hk : m.access = .field k) :
      Captures s c d k fun f => f.name = request.member ∧ f.type = m.memberType

section
variable {w : Workshop} {S : Schema} {cache : List (Ty × DescriptorId)} {σ : Session} {t : Ty}
variable {base : ClassDecl} {i : Implementation} {f : ForgedProperty}

namespace Implementation.Realizes

variable (hi : i.Realizes w S cache σ t base)
include hi

/-- The accessors of a property get along with its field. -/
theorem suits (hf : f ∈ i.properties) :
    (f.field.getter S).Suits S f.field.fieldType f.field.property.type ∧
      ∀ g, f.field.setter? f.shape = some g → g.Suits S f.field.fieldType f.field.property.type := by
  obtain ⟨q, -, k, hreal⟩ := hi.properties.mem hf
  obtain ⟨F, member, hchooses, hfield⟩ := hreal.eq
  have hshape := hreal.shape
  cases member with
  | none =>
    have hF : F = q.type := by
      cases hchooses
      rfl
    rw [PropertyField.setterShape, hfield] at hshape
    obtain hshape : .direct = f.shape := Except.ok.inj hshape
    rw [hfield, ← hshape]
    refine ⟨hF, fun g hg => ?_⟩
    obtain rfl := Option.some.inj hg
    exact ⟨rfl, hF⟩
  | some m =>
    have hm := hchooses.valueMember?
    rw [hfield]
    refine ⟨hm, fun g hg => ?_⟩
    rw [PropertyField.setterShape, hfield] at hshape
    cases hs : f.shape with
    | omitted =>
      rw [hs] at hg
      cases hg
    | direct =>
      rw [hs] at hshape
      dsimp only at hshape
      split at hshape
      · cases hshape
      · split at hshape <;> cases hshape
    | through m' =>
      rw [hs] at hg hshape
      dsimp only at hshape
      split at hshape
      · obtain rfl := SetterShape.through.inj (Except.ok.inj hshape)
        obtain rfl := Option.some.inj hg
        exact ⟨rfl, hm⟩
      · split at hshape <;> cases hshape

/-- The steps of the plans of an implementation build the fields of its properties, and tell their values
the properties if the types of the fields ask for it. -/
theorem steps_spec {ctor : ConstructorDecl} {p : ConstructionPlan}
    (hctor : ctor ∈ (i.decl S).constructors) (hp : ctor.body = .plan p) :
    (∀ step ∈ p.steps, ∃ f ∈ i.properties, ∃ source, step = f.field.step source) ∧
      ∀ info ∈ p.infos, ∃ f ∈ i.properties, FieldPlan.info? S f.field = some info := by
  constructor
  · intro step hstep
    obtain ⟨p', hp', hsteps, -⟩ := exists_plan hctor
    obtain rfl := ConstructorBody.plan.inj (hp'.symm.trans hp)
    obtain ⟨f, hf, plan, hplan, hstep⟩ := hsteps step hstep
    have hrealizes := hi.plan_realizes hf hplan
    exact ⟨f, hf, hrealizes.step_eq hstep⟩
  · intro info hinfo
    have hinfo : info ∈ i.infos := by
      rcases List.mem_pair.mp hctor with rfl | rfl <;>
        · obtain rfl := ConstructorBody.plan.inj hp
          exact hinfo
    obtain ⟨plan, hplan, hinfo⟩ := List.mem_filterMap.mp hinfo
    obtain ⟨f, hf, hplan⟩ := List.mem_filterMap.mp hplan
    have hrealizes := hi.plan_realizes hf hplan
    exact ⟨f, hf, hrealizes.info_eq ▸ hinfo⟩

end Implementation.Realizes

end

namespace World

variable {w w' : World} {c : ClassId} {d : ClassDecl} {k : Nat} {meant : FieldDecl → Prop}

/-- **A slot that was captured** is there, and holds the field that was meant. -/
theorem Guards.field_of_captures (hw : Guards {} w) (hc : w.schema.class? c = some d)
    (h : w.schema.Captures c d k meant) : ∃ f, d.layout[k]? = some f ∧ meant f := by
  have hfields : w.schema.fields (.cls c) = d.layout := by
    rw [Schema.fields, show w.schema.decl? (.cls c) = some d from hc, Option.elim_some]
  cases h with
  | auto hd hm hq hname hk =>
    obtain ⟨j, f, rfl, hf, hmeant⟩ := hd.auto_spec hc hm hq hname
    rcases hk with hk | hk
    · obtain rfl := Getter.slot.inj (Accessor.body.inj (Option.some.inj hk))
      exact ⟨f, hf, hmeant⟩
    · obtain rfl := Setter.slot.inj (Accessor.body.inj (Option.some.inj hk))
      exact ⟨f, hf, hmeant⟩
  | getter hd hq hg hk =>
    obtain ⟨b, i, v, cache, hb, ha, hi, rfl⟩ := (hw.origin hc).exists_implementation hd
    obtain ⟨f, hf, rfl⟩ := List.mem_map.mp hq
    obtain rfl := Accessor.body.inj (Option.some.inj hg)
    have hslot := Implementation.Realizes.slot?_getter (S := w.schema) f.field
    obtain rfl := Option.some.inj (hslot.symm.trans hk)
    exact ⟨_, (hi.layout_slot hf).2, rfl, (hi.suits hf).1⟩
  | setter hd hq hg hk =>
    obtain ⟨b, i, v, cache, hb, ha, hi, rfl⟩ := (hw.origin hc).exists_implementation hd
    obtain ⟨f, hf, rfl⟩ := List.mem_map.mp hq
    obtain ⟨g', hg', he⟩ := Option.map_eq_some_iff.mp hg
    obtain rfl := Accessor.body.inj he
    have hslot := Implementation.Realizes.slot?_setter hg'
    obtain rfl := Option.some.inj (hslot.symm.trans hk)
    exact ⟨_, (hi.layout_slot hf).2, rfl, (hi.suits hf).2 g' hg'⟩
  | build hd hctor hp hstep =>
    obtain ⟨b, i, v, cache, hb, ha, hi, rfl⟩ := (hw.origin hc).exists_implementation hd
    obtain ⟨f, hf, source, rfl⟩ := (hi.steps_spec hctor hp).1 _ hstep
    exact ⟨_, (hi.layout_slot hf).2, rfl, rfl⟩
  | info hd hctor hp hinfo =>
    obtain ⟨b, i, v, cache, hb, ha, hi, rfl⟩ := (hw.origin hc).exists_implementation hd
    obtain ⟨f, hf, hinfo⟩ := (hi.steps_spec hctor hp).2 _ hinfo
    rw [FieldPlan.info?] at hinfo
    split at hinfo
    · next hreceives =>
      obtain rfl := Option.some.inj hinfo
      exact ⟨_, (hi.layout_slot hf).2, rfl, hreceives⟩
    · cases hinfo
  | @owned slots _ hd hk =>
    have himplementation : d.isImplementation = true := by
      rw [ClassDecl.isImplementation, hd]
      rfl
    obtain ⟨b, i, v, cache, hb, ha, hi, rfl⟩ :=
      (hw.origin hc).exists_implementation himplementation
    obtain rfl := Option.some.inj hd
    obtain ⟨f, hf, hslot⟩ := List.mem_filterMap.mp hk
    obtain ⟨plan, hplan, rfl⟩ := Option.map_eq_some_iff.mp hslot
    have hrealizes := hi.plan_realizes hf hplan
    obtain ⟨dF, hdF, hvalue, -⟩ := Provider.exists_of_owns hrealizes.owns
    refine ⟨_, (hi.layout_slot hf).2, ?_⟩
    show w.schema.isReferenceClass f.field.fieldType = true
    rw [Schema.isReferenceClass, hdF, Option.any_some, hvalue]
    rfl
  | valueMember hm hk =>
    have hformed : w.schema.Formed := (hw.settled settled_empty).formed.schema
    obtain ⟨f, hf, hmeant⟩ := hformed.field_of_valueMember? hm hk
    exact ⟨f, hfields ▸ hf, hmeant⟩
  | mapper ht hm hk =>
    obtain ⟨f, hf, hmeant⟩ := MemberMapper.field_of_make hm hk
    rw [ht, hfields] at hf
    exact ⟨f, hf, hmeant⟩

/-- What is an instance of a class is an object that is there. -/
theorem lt_size_of_isInstance {o : ObjectId} (h : w.isInstance o (.cls c) = true) :
    o < w.heap.objects.size := by
  by_contra hno
  have hany : w.classOf o = .any := by
    have hnone : w.heap.object? o = none := Array.getElem?_eq_none (Nat.le_of_not_lt hno)
    simp [classOf, Schema.classOf, hnone]
  rw [isInstance, hany] at h
  cases h

/-- **Slots of inherited fields never move.** In each world that comes about, a class adds its own fields
behind those of its base, and begins with the fields of each class above it. A slot that was captured for
a class, however early, holds the field that was meant in the class and in all classes below. On their
instances it can be read and written, also in the middle of a run. -/
theorem captured_slots_stay {w₀ w₁ : World} (hw : w₀.Reached) (hlater : w₀.Later w₁)
    (hguards : w₁.Guards w) :
    (∀ {t d}, w₁.schema.decl? t = some d →
      d.ownStart = (w₁.schema.inherited t).length ∧ w₁.schema.inherited t <+: d.layout ∧
        ∀ a ∈ w₁.schema.ancestors t, w₁.schema.fields a <+: d.layout) ∧
    ∀ {c d k meant}, w₀.schema.class? c = some d → w₀.schema.Captures c d k meant →
      ∃ f, d.layout[k]? = some f ∧ meant f ∧
        (∀ {t d'}, w₁.schema.decl? t = some d' → .cls c ∈ w₁.schema.ancestors t →
          d'.layout[k]? = some f) ∧
        ∀ {o}, w.isInstance o (.cls c) = true → (w.schema.fields (w.classOf o))[k]? = some f ∧
          (∃ v, w.field o k = .ok v) ∧ ∀ v, ∃ w', w.setField o k v = .ok w' := by
  have hguards₁ := Later.guards hw.settled hlater
  have hsettled₁ := hguards₁.settled hw.settled
  have hsettled := hguards.settled hsettled₁
  have hw₁ : w₁.Reached := hw.trans hlater
  refine ⟨fun {t d} ht => ?_, fun {c d k meant} hc hcaptures => ?_⟩
  · obtain ⟨c, rfl, -⟩ := Schema.lt_size_of_decl? ht
    obtain ⟨own, hadds⟩ := (hw₁.guards.origin ht).adds ht
    refine ⟨hadds.start, hadds.layout ▸ List.prefix_append .., fun a ha => ?_⟩
    have hfields : w₁.schema.fields (.cls c) = d.layout := by
      rw [Schema.fields, ht, Option.elim_some]
    exact hfields ▸ hsettled₁.formed.schema.fields_prefix ha
  · obtain ⟨f, hf, hmeant⟩ := hw.guards.field_of_captures hc hcaptures
    -- the class has the same fields in every later world
    have hfields : ∀ {w' : World}, w₀.schema.Extends w'.schema → w'.Settled →
        ∀ {t}, .cls c ∈ w'.schema.ancestors t → (w'.schema.fields t)[k]? = some f := by
      intro w' he hw' t ht
      have hc' : w'.schema.fields (.cls c) = d.layout := by
        rw [Schema.fields, show w'.schema.decl? (.cls c) = some d from he.classes hc, Option.elim_some]
      exact hw'.formed.schema.getElem?_fields ht (hc' ▸ hf)
    refine ⟨f, hf, hmeant, fun {t d'} ht habove => ?_, fun {o} ho => ?_⟩
    · have hfield := hfields hguards₁.schema hsettled₁ habove
      rwa [Schema.fields, ht] at hfield
    · have he := hguards₁.schema.trans hguards.schema
      have hfield := hfields he hsettled (Schema.mem_ancestors_of_isAssignable ho)
      have hslot : k < (w.schema.fields (w.classOf o)).length :=
        (List.getElem?_eq_some_iff.mp hfield).1
      obtain ⟨i, hi, hk⟩ := hsettled.formed.hasSlots (lt_size_of_isInstance ho)
        (t := w.classOf o) (by simp [isInstance, Schema.isAssignable]) hslot
      refine ⟨hfield, ?_, fun v => ?_⟩
      · exact ⟨i.fields[k], field_eq_ok_iff.mpr (by simp [Heap.field?, hi])⟩
      · have hstore : w.heap.store o k v = some ((w.heap.assign v).2.put o k (w.heap.assign v).1) :=
          Heap.store_eq_some_iff.mpr ⟨i, hi, hk, rfl⟩
        exact ⟨_, setField_eq_ok_iff.mpr ⟨_, hstore, rfl⟩⟩

end World

namespace Scene

/-- Drafts of a class with a property that keeps itself, and of an abstract class below that declares the
property again, without bodies. -/
def atticDrafts : List ClassDraft :=
  [{ name := "Attic.Chest"
     members := [.auto "Label" (.scalar (.integer .i32)), .defaultConstructor] },
   { name := "Attic.Trunk", base := some (.cls 0), isAbstract := true
     members := [
       .property { World.forestProperty (.scalar (.integer .i32)) with name := "Label" },
       .defaultConstructor] }]

/-- A draft of a class below the implementation of `Attic.Trunk`. -/
def atticCase : ClassDraft where
  name := "Attic.Case"
  base := some (.cls 2)
  members := [.auto "Lid" (.scalar .bool), .defaultConstructor]

/-- The world in which `Attic.Trunk` has been implemented, with a case. -/
def attic : World :=
  let w := asked atticDrafts (.cls 1)
  ((Deed.construct (.cls 3) 0 []).run 8 { w with schema := addDrafts w.schema [atticCase] }).2

theorem atticDrafts_canDeclare : CanDeclare {} atticDrafts := by decide +kernel

theorem attic_asked_reached : (asked atticDrafts (.cls 1)).Reached :=
  asked_reached atticDrafts_canDeclare (by decide) (by decide) (by decide +kernel) (.cls 1)

/-- A class with built-in bodies can be declared later, where the registries give what is attached to
properties. -/
theorem declare_later {w : World} {draft : ClassDraft} (hoffence : w.schema.offence? draft = none)
    (hwritten : draft.IsWritten)
    (hcovers : (addDrafts w.schema [draft]).Covers (w.schema.finish draft))
    (hb : (w.schema.finish draft).isBuiltIn = true)
    (hclosed : (addDrafts w.schema [draft]).Closed)
    (hliteral : ∀ d ∈ (addDrafts w.schema [draft]).classes.toList, ∀ q ∈ d.properties,
      ∀ vs ∈ q.parameters?, ∀ v ∈ vs, v.isLiteral = true)
    (hproviders : ∀ (r : RegistryId) registry, w.registries[r]? = some registry →
      registry.provider = .attributes) :
    w.Later { w with schema := addDrafts w.schema [draft] } := by
  have hdeclare : w.schema.declare draft = .ok (w.schema.classes.size, addDrafts w.schema [draft]) :=
    Schema.declare_eq_ok_iff.mpr ⟨hoffence, rfl⟩
  have hfits := attributes_fit w hclosed hliteral
  exact .single (.declare hdeclare hwritten hcovers (ClassDecl.all_of_isBuiltIn hb)
    fun r registry hr => hproviders r registry hr ▸ hfits)

theorem attic_later : (asked atticDrafts (.cls 1)).Later attic := by
  let w := asked atticDrafts (.cls 1)
  have hdeclared : w.Later { w with schema := addDrafts w.schema [atticCase] } :=
    declare_later (by decide +kernel) (by decide +kernel)
      (by decide +kernel) (by decide +kernel) (by decide +kernel) (by decide +kernel)
      fun _ _ hr => provider_asked hr
  exact hdeclared.tail (.deed 8 fun _ hv => (List.not_mem_nil hv).elim)

theorem attic_reached : attic.Reached := attic_asked_reached.trans attic_later

/-- The slot that the getter of the implementation of `Attic.Trunk` reads is there in a case, the class of
which was declared afterwards. -/
theorem captured_slots_stay_attic : ∃ f, (attic.schema.fields (attic.classOf 0))[1]? = some f ∧
    f.name = "_Label" ∧ f.type = .scalar (.integer .i32) ∧ ∃ v, attic.field 0 1 = .ok v := by
  obtain ⟨-, hcaptured⟩ := World.captured_slots_stay attic_asked_reached attic_later (.refl _)
  obtain ⟨f, -, ⟨hname, htype⟩, -, hinstance⟩ := hcaptured (c := 2) rfl
    (.getter (g := .slot 1) rfl List.mem_cons_self rfl rfl)
  obtain ⟨hfield, hread, -⟩ := hinstance (o := 0) (by decide +kernel)
  exact ⟨f, hfield, hname, htype, hread⟩

end Scene

end RecordForge
