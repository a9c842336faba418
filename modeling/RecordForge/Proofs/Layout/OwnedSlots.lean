import RecordForge.Proofs.Layout.Slots

/-!
# The members that an instance owns

An implementation records the slots for which its constructors have steps, in the order of the steps
(`Implementation.Realizes.steps_slots`). The owned members of an object are read from the nearest record
among its class and the bases of that. So an instance of an implementation, or of a class below, lists
all that the constructors of the nearest implementation build, in order, each once, also in the middle
of a run (`World.owned_members`).

Implementations can be stacked: an abstract class below an implementation can be implemented in turn.
Then the record of the upper one is not read, and what its constructors build is not listed.
-/

namespace RecordForge

open Run

/-- A constructor of an implementation has a step that builds the field in a slot. -/
def ClassDecl.Builds (d : ClassDecl) (k : Nat) : Prop :=
  d.isImplementation = true ∧
    ∃ ctor ∈ d.constructors, ∃ p, ctor.body = .plan p ∧ ∃ step ∈ p.steps, step.slot = k

/-! ## Lineages -/

namespace Schema

variable {s : Schema} {t a a' : Ty} {c : ClassId} {d d' : ClassDecl}
variable {below above : List (Ty × ClassDecl)}

/-- What has a lineage is a class. -/
theorem exists_class_of_mem_lineage (h : (a, d) ∈ s.lineage t) :
    ∃ c d', t = .cls c ∧ s.class? c = some d' := by
  rcases List.mem_cons.mp (mem_ancestors_of_mem_lineage h) with rfl | hbase
  · have hdecl := decl?_of_mem_lineage h
    obtain ⟨c, rfl, -⟩ := lt_size_of_decl? hdecl
    exact ⟨c, d, rfl, hdecl⟩
  · obtain ⟨c, d', n, rfl, hc, -⟩ := Formed.classes_of_mem_bases hbase
    exact ⟨c, d', rfl, hc⟩

/-- A lineage begins with the class itself. The lineage of its base follows, if it has one. -/
theorem Formed.lineage_cases (hs : s.Formed) (hc : s.class? c = some d) :
    s.lineage (.cls c) = [(.cls c, d)] ∨
      ∃ b, s.base? (.cls c) = some b ∧ s.lineage (.cls c) = (.cls c, d) :: s.lineage b := by
  rcases hs.lineage hc with hroot | ⟨b, d', hb, hbases, -⟩
  · left
    simp only [Schema.lineage, ancestors, bases, decl?, hc, Option.elim_some, hroot, List.map_nil,
      List.filterMap_cons, List.filterMap_nil, Option.map_some]
  · refine .inr ⟨.cls b, ?_, lineage_of_bases hc hb hbases⟩
    simp only [base?, bases, decl?, hc, Option.elim_some, hbases, List.map_cons, List.head?_cons]

/-- From each of its classes on, a lineage is the lineage of that class. -/
theorem Formed.lineage_of_split (hs : s.Formed) (h : s.lineage t = below ++ (a, d) :: above) :
    s.lineage a = (a, d) :: above := by
  induction below generalizing t with
  | nil =>
    have hmem : (a, d) ∈ s.lineage t := by simp [h]
    obtain ⟨c, d', rfl, hc⟩ := exists_class_of_mem_lineage hmem
    have hfirst : (a, d) = (.cls c, d') := by
      rcases hs.lineage_cases hc with halone | ⟨b, -, hbase⟩
      · exact (List.cons.inj (h.symm.trans halone)).1
      · exact (List.cons.inj (h.symm.trans hbase)).1
    obtain ⟨rfl, -⟩ := Prod.mk.inj hfirst
    exact h
  | cons x below ih =>
    have hmem : (a, d) ∈ s.lineage t := by simp [h]
    obtain ⟨c, d', rfl, hc⟩ := exists_class_of_mem_lineage hmem
    rcases hs.lineage_cases hc with halone | ⟨b, -, hbase⟩
    · have hnil := (List.cons.inj (h.symm.trans halone)).2
      exact absurd hnil (by simp)
    · exact ih (List.cons.inj (hbase.symm.trans h)).2

/-- What a class farther up has is inherited. -/
theorem Formed.layout_prefix_inherited (hs : s.Formed) (h : s.lineage a = (a, d) :: above)
    (hmem : (a', d') ∈ above) : d'.layout <+: s.inherited a := by
  obtain ⟨c, d₀, rfl, hc⟩ := exists_class_of_mem_lineage (t := a) (h ▸ List.mem_cons_self)
  rcases hs.lineage_cases hc with halone | ⟨b, hb, hbase⟩
  · obtain rfl : above = [] := (List.cons.inj (h.symm.trans halone)).2
    cases hmem
  · obtain rfl : above = s.lineage b := (List.cons.inj (h.symm.trans hbase)).2
    have hprefix := hs.fields_prefix (mem_ancestors_of_mem_lineage hmem)
    rw [fields, decl?_of_mem_lineage hmem, Option.elim_some] at hprefix
    rw [inherited, hb, Option.elim_some]
    exact hprefix

end Schema

/-! ## The record of an implementation -/

namespace Implementation.Realizes

variable {w : Workshop} {S : Schema} {cache : List (Ty × DescriptorId)} {σ : Session} {t : Ty}
variable {base : ClassDecl} {i : Implementation} (hi : i.Realizes w S cache σ t base)
include hi

/-- The constructors of an implementation have a step for each slot that it records, in order. -/
theorem steps_slots {ctor : ConstructorDecl} (hctor : ctor ∈ (i.decl S).constructors) :
    ∃ p, ctor.body = .plan p ∧ p.steps.map BuildStep.slot = i.owned := by
  rcases List.mem_pair.mp hctor with rfl | rfl
  · refine ⟨_, rfl, ?_⟩
    have hsome : i.plans.map FieldPlan.default = i.plans.filterMap fun plan => some plan.default :=
      (congrFun List.filterMap_eq_map i.plans).symm
    show (i.plans.map FieldPlan.default).map BuildStep.slot = i.owned
    rw [hsome]
    refine Implementation.map_slot fun f hf plan hfp => ?_
    obtain ⟨source, factory, rfl, -⟩ := (hi.plan_realizes hf hfp).eq
    rfl
  · refine ⟨_, rfl, Implementation.map_slot fun f hf plan hfp => ?_⟩
    obtain ⟨source, factory, rfl, -⟩ := (hi.plan_realizes hf hfp).eq
    rfl

/-- They are recorded in increasing order, and belong to fields that the implementation adds. -/
theorem owned_spec : i.owned.Pairwise (· < ·) ∧ ∀ k ∈ i.owned, i.base.layout.length ≤ k := by
  have hsub : i.owned.Sublist (List.range' i.base.layout.length i.properties.length) := by
    have hslots := hi.properties.slots
    rw [← hi.base] at hslots
    exact hslots ▸ sublist_filterMap_map _ ForgedProperty.plan i.properties
  exact ⟨List.Pairwise.sublist hsub List.pairwise_lt_range',
    fun k hk => (List.mem_range'_1.mp (hsub.subset hk)).1⟩

/-- The constructors build what is recorded, and nothing else. -/
theorem builds_iff {k : Nat} : (i.decl S).Builds k ↔ k ∈ i.owned := by
  constructor
  · rintro ⟨-, ctor, hctor, p, hp, step, hstep, rfl⟩
    obtain ⟨p', hp', hslots⟩ := hi.steps_slots hctor
    obtain rfl := ConstructorBody.plan.inj (hp'.symm.trans hp)
    exact hslots ▸ List.mem_map_of_mem hstep
  · intro hk
    obtain ⟨p, hp, hslots⟩ := hi.steps_slots List.mem_cons_self
    rw [← hslots] at hk
    obtain ⟨step, hstep, hslot⟩ := List.mem_map.mp hk
    exact ⟨rfl, _, List.mem_cons_self, p, hp, step, hstep, hslot⟩

end Implementation.Realizes

/-! ## What is listed -/

/-- Reading slots that are there. -/
theorem getFields_run {w : World} {o : ObjectId} {slots : List Nat}
    (h : ∀ k ∈ slots, ∃ v, w.heap.field? o k = some v) :
    ∃ values, slots.mapM (getField o) w = (.ok values, w) ∧
      List.Forall₂ (fun k v => w.heap.field? o k = some v) slots values := by
  induction slots with
  | nil => exact ⟨[], rfl, .nil⟩
  | cons k slots ih =>
    obtain ⟨v, hv⟩ := h k List.mem_cons_self
    obtain ⟨values, hrun, hvalues⟩ := ih fun j hj => h j (List.mem_cons_of_mem k hj)
    have hget : getField o k w = (.ok v, w) := check_of_ok (World.field_eq_ok_iff.mpr hv)
    refine ⟨v :: values, ?_, .cons hv hvalues⟩
    rw [List.mapM_cons, bind_of_ok hget, bind_of_ok hrun]
    rfl

namespace World

variable {w : World} {c : ClassId} {d : ClassDecl}

/-- A class that records owned members is an implementation, whose constructors build them. -/
theorem Guards.records (hw : Guards {} w) (hc : w.schema.class? c = some d) {slots : List Nat}
    (hd : d.owned = some slots) :
    slots.Pairwise (· < ·) ∧ (∀ k ∈ slots, d.ownStart ≤ k ∧ k < d.layout.length) ∧
      (∀ k, d.Builds k ↔ k ∈ slots) ∧
      ∀ ctor ∈ d.constructors, ∃ p, ctor.body = .plan p ∧ p.steps.map BuildStep.slot = slots := by
  have himplementation : d.isImplementation = true := by rw [ClassDecl.isImplementation, hd]; rfl
  obtain ⟨b, i, v, cache, -, -, hi, rfl⟩ := (hw.origin hc).exists_implementation himplementation
  obtain rfl := Option.some.inj hd
  obtain ⟨hsorted, hown⟩ := hi.owned_spec
  refine ⟨hsorted, fun k hk => ⟨hown k hk, ?_⟩, fun k => hi.builds_iff, fun ctor => hi.steps_slots⟩
  obtain ⟨f, hf, -⟩ := hw.field_of_captures hc (.owned hd hk)
  exact (List.getElem?_eq_some_iff.mp hf).1

/-- The fields of a class are there in the objects of all classes below. -/
theorem Settled.exists_field (hw : w.Settled) {o : ObjectId} {k : Nat}
    (hl : (.cls c, d) ∈ w.schema.lineage (w.classOf o)) (hk : k < d.layout.length) :
    ∃ v, w.heap.field? o k = some v := by
  have hinstance : w.isInstance o (.cls c) = true := by
    exact Schema.isAssignable_of_mem_ancestors (Schema.mem_ancestors_of_mem_lineage hl)
  have hlt : k < (w.schema.fields (.cls c)).length := by
    rw [Schema.fields, Schema.decl?_of_mem_lineage hl]
    exact hk
  obtain ⟨i, hi, hfield⟩ := hw.formed.hasSlots (lt_size_of_isInstance hinstance) hinstance hlt
  exact ⟨i.fields[k], by simp [Heap.field?, hi]⟩

/-- What an implementation builds is not built by one farther up: it has inherited the fields of that. -/
theorem Guards.not_builds_above (hw : Guards {} w) {below above : List (Ty × ClassDecl)} {t a a' : Ty}
    {d' : ClassDecl} (hl : w.schema.lineage t = below ++ (a, d) :: above) (ha : (a', d') ∈ above)
    {k : Nat} (hk : d.Builds k) : ¬d'.Builds k := by
  intro hk'
  have hmem : (a, d) ∈ w.schema.lineage t := by simp [hl]
  have hmem' : (a', d') ∈ w.schema.lineage t := by simp [hl, ha]
  have hdecl := Schema.decl?_of_mem_lineage hmem
  have hdecl' := Schema.decl?_of_mem_lineage hmem'
  obtain ⟨c, rfl, -⟩ := Schema.lt_size_of_decl? hdecl
  obtain ⟨c', rfl, -⟩ := Schema.lt_size_of_decl? hdecl'
  have hstart : d.ownStart ≤ k := by
    obtain ⟨slots, hslots⟩ := Option.isSome_iff_exists.mp hk.1
    obtain ⟨-, hown, hbuilds, -⟩ := hw.records hdecl hslots
    exact (hown k ((hbuilds k).mp hk)).1
  have hlt : k < d'.layout.length := by
    obtain ⟨slots, hslots⟩ := Option.isSome_iff_exists.mp hk'.1
    obtain ⟨-, hown, hbuilds, -⟩ := hw.records hdecl' hslots
    exact (hown k ((hbuilds k).mp hk')).2
  have hformed : w.schema.Formed := (hw.settled settled_empty).formed.schema
  have hle := (hformed.layout_prefix_inherited (hformed.lineage_of_split hl) ha).length_le
  obtain ⟨own, hadds⟩ := (hw.origin hdecl).adds hdecl
  rw [hadds.start] at hstart
  omega

/-- **The owned members of an object** whose class is an implementation, or is below one, in a world that
has come about from nothing, also in the middle of a run. What is listed are the values of the fields for
which the constructors of the nearest implementation have steps: in the order of the steps, each once.
This never faults, and changes nothing.

These are all fields that implementations among the class and its bases build exactly if none builds any
that is farther up than the nearest. -/
theorem owned_members {w₀ w : World} (hw : w₀.Reached) (hguards : w₀.Guards w) {o : ObjectId}
    (h : ∃ x ∈ w.schema.lineage (w.classOf o), x.2.isImplementation = true) :
    ∃ below a d above slots values,
      w.schema.lineage (w.classOf o) = below ++ (a, d) :: above ∧
      (∀ x ∈ below, x.2.isImplementation = false) ∧ d.owned = some slots ∧
      slots.Pairwise (· < ·) ∧
      (∀ ctor ∈ d.constructors, ∃ p, ctor.body = .plan p ∧ p.steps.map BuildStep.slot = slots) ∧
      Run.ownedMembers o w = (.ok values, w) ∧
      List.Forall₂ (fun k v => w.heap.field? o k = some v) slots values ∧
      ((∀ k, k ∈ slots ↔ ∃ x ∈ w.schema.lineage (w.classOf o), x.2.Builds k) ↔
        ∀ x ∈ above, ∀ k, ¬x.2.Builds k) := by
  have hg : Guards {} w := hw.guards.trans hguards
  obtain ⟨slots, hslots⟩ : ∃ slots, w.schema.ownedSlots? (w.classOf o) = some slots := by
    obtain ⟨x, hx, himplementation⟩ := h
    rw [← Option.isSome_iff_exists, Schema.ownedSlots?, List.findSome?_isSome_iff]
    exact ⟨x, hx, himplementation⟩
  obtain ⟨below, ⟨a, d⟩, above, hl, hd, hfirst⟩ := List.findSome?_eq_some_iff.mp hslots
  have hmem : (a, d) ∈ w.schema.lineage (w.classOf o) := by simp [hl]
  have hdecl := Schema.decl?_of_mem_lineage hmem
  obtain ⟨c, rfl, -⟩ := Schema.lt_size_of_decl? hdecl
  obtain ⟨hsorted, hown, hbuilds, hsteps⟩ := hg.records hdecl hd
  have hfirst : ∀ x ∈ below, x.2.isImplementation = false := fun x hx => by
    have hnone : x.2.owned = none := hfirst x hx
    rw [ClassDecl.isImplementation, hnone]
    rfl
  obtain ⟨values, hrun, hvalues⟩ := getFields_run fun k hk =>
    (hg.settled settled_empty).exists_field hmem (hown k hk).2
  refine ⟨below, .cls c, d, above, slots, values, hl, hfirst, hd, hsorted, hsteps, ?_, hvalues, ?_, ?_⟩
  · rw [ownedMembers, ask_bind, hslots]
    exact hrun
  · intro hall x hx k hk
    have hslot : k ∈ slots := (hall k).mpr ⟨x, by simp [hl, hx], hk⟩
    exact hg.not_builds_above hl hx ((hbuilds k).mpr hslot) hk
  · intro hnone k
    rw [← hbuilds k]
    refine ⟨fun hk => ⟨_, hmem, hk⟩, ?_⟩
    rintro ⟨x, hx, hk⟩
    rw [hl] at hx
    rcases List.mem_append.mp hx with hx | hx
    · cases (hfirst x hx).symm.trans hk.1
    · rcases List.mem_cons.mp hx with rfl | hx
      · exact hk
      · exact absurd hk (hnone x hx k)

end World

namespace Scene

/-- Drafts of a class, and of an abstract class with a property of its type. -/
def coachDrafts : List ClassDraft :=
  [{ name := "Coach.Wheel", members := [.defaultConstructor] },
   { name := "Coach.Cart", isAbstract := true
     members := [.property { World.forestProperty (.cls 0) with name := "Wheel" },
       .defaultConstructor] }]

/-- A draft of an abstract class below the implementation of `Coach.Cart`, with a property of its own. -/
def coachDraft : ClassDraft where
  name := "Coach.Coach"
  base := some (.cls 2)
  isAbstract := true
  members := [.property { World.forestProperty (.cls 0) with name := "Spare" }, .defaultConstructor]

/-- The world in which `Coach.Cart` has been implemented, and `Coach.Coach` has been declared. -/
def coachYard : World :=
  let w := asked coachDrafts (.cls 1)
  { w with schema := addDrafts w.schema [coachDraft] }

/-- The world in which `Coach.Coach` has been implemented as well, with a coach. -/
def coach : World := ((Deed.construct (.cls 4) 0 []).run 8 (coachYard.request 0 (.cls 3))).2

theorem coach_reached : coach.Reached := by
  have hdeclare : CanDeclare {} coachDrafts := by decide +kernel
  have hcarts := asked_reached hdeclare (by decide) (by decide) (by decide +kernel) (.cls 1)
  have hyard : (asked coachDrafts (.cls 1)).Later coachYard :=
    declare_later (by decide +kernel) (by decide +kernel)
      (by decide +kernel) (by decide +kernel) (by decide +kernel) (by decide +kernel)
      fun _ _ hr => provider_asked hr
  have hasked := (hcarts.trans hyard).trans (World.later_request 0 (.cls 3))
  exact hasked.tail (.deed 8 fun _ hv => (List.not_mem_nil hv).elim)

/-- A coach lists a member that is there, its spare wheel. -/
theorem owned_members_coach : ∃ values, Run.ownedMembers 0 coach = (.ok values, coach) ∧
    List.Forall₂ (fun k v => coach.heap.field? 0 k = some v) [1] values := by
  have himplementation : ∃ x ∈ coach.schema.lineage (coach.classOf 0), x.2.isImplementation = true := by
    have hany : (coach.schema.lineage (coach.classOf 0)).any (fun x => x.2.isImplementation) = true := by
      decide +kernel
    exact List.any_eq_true.mp hany
  obtain ⟨below, a, d, above, slots, values, hl, hfirst, hd, -, -, hrun, hvalues, -⟩ :=
    World.owned_members coach_reached (.refl _) himplementation
  have hslots : coach.schema.ownedSlots? (coach.classOf 0) = some slots := by
    rw [Schema.ownedSlots?, hl]
    refine List.findSome?_eq_some_iff.mpr ⟨below, (a, d), above, rfl, hd, fun x hx => ?_⟩
    exact Option.not_isSome_iff_eq_none.mp (by simpa [ClassDecl.isImplementation] using hfirst x hx)
  obtain rfl : [1] = slots := Option.some.inj ((by decide +kernel : _ = some [1]).symm.trans hslots)
  exact ⟨values, hrun, hvalues⟩

/-- It does not list its other wheel, which the constructors of the implementation of `Coach.Cart` have
built, and which is there, too. -/
theorem coach_omits_wheel : (Run.ownedMembers 0 coach).1 = .ok [.object 1] ∧
    coach.heap.field? 0 0 = some (.object 2) ∧
      ∃ x ∈ coach.schema.lineage (coach.classOf 0), x.2.Builds 0 := by
  refine ⟨rfl, by decide +kernel, ?_⟩
  have howned : (coach.schema.decl? (.cls 2)).map ClassDecl.owned = some (some [0]) := by
    decide +kernel
  obtain ⟨d, hd, hslots⟩ := Option.map_eq_some_iff.mp howned
  obtain ⟨-, -, hbuilds, -⟩ := coach_reached.guards.records hd hslots
  have habove : Ty.cls 2 ∈ coach.schema.ancestors (coach.classOf 0) := by decide +kernel
  exact ⟨(.cls 2, d), List.mem_filterMap.mpr ⟨_, habove, by rw [hd]; rfl⟩,
    (hbuilds 0).mpr List.mem_cons_self⟩

end Scene

end RecordForge
