import RecordForge.Proofs.Synthesis.Realization
import RecordForge.Proofs.Text.Endless

/-!
# The report of an implementation is determined by its class

Two sessions that make the implementation of one class number their lookups and their classes
differently. What the report shows of them are names, and those agree: `report_unique`.

Objects among the construction parameters are shown by the names of their classes, so these have to
be declared (`Heap.Within`).
-/

namespace RecordForge

/-- The class of every object is declared. -/
def Heap.Within (h : Heap) (s : Schema) : Prop :=
  ∀ {o : ObjectId} {i : Instance}, h.object? o = some i → s.Declares (.cls i.cls)

variable {w : Workshop} {reg : RegistryId} {S s₁ s₂ s : Schema} {h : Heap}

/-! ## Values in words -/

/-- What a list is mapped to depends on the images of its entries. -/
theorem mapM_congr {α β γ : Type} {f : α → Option γ} {g : β → Option γ} {xs : List α} {ys : List β}
    (h : xs.map f = ys.map g) : xs.mapM f = ys.mapM g := by
  have hf : (xs.map f).mapM id = xs.mapM f := by simp
  have hg : (ys.map g).mapM id = ys.mapM g := by simp
  rw [← hf, h, hg]

theorem Schema.declares_classOf (hh : h.Within S) (o : ObjectId) :
    S.Declares (Schema.classOf h o) := by
  simp only [classOf]
  cases ho : h.object? o with
  | none => trivial
  | some i => exact hh ho

theorem Schema.declares_typeOf (hh : h.Within S) (v : Value) : S.Declares (Schema.typeOf h v) := by
  cases v with
  | object o => exact declares_classOf hh o
  | null => trivial
  | scalar x => trivial
  | carrier c => trivial

section
variable (hs : S.Extends s) (hh : h.Within S)
include hs hh

theorem Schema.typeName_eq (v : Value) : s.typeName h v = S.typeName h v := by
  cases v with
  | null => rfl
  | object o => exact name_eq hs (declares_typeOf hh (.object o))
  | scalar x => exact name_eq hs (declares_typeOf hh (.scalar x))
  | carrier c => exact name_eq hs (declares_typeOf hh (.carrier c))

theorem Schema.detailedTo_eq (lib : TextLibrary) (depth : Nat) (v : Value) :
    s.detailedTo h lib depth v = S.detailedTo h lib depth v := by
  induction depth generalizing v with
  | zero =>
    cases v with
    | object o => simp only [detailedTo, typeName_eq hs hh]
    | carrier c => cases hvs : h.parameters? c <;> simp [detailedTo, hvs]
    | _ => rfl
  | succ depth ih =>
    have ih : s.detailedTo h lib depth = S.detailedTo h lib depth := funext ih
    cases v with
    | object o => simp only [detailedTo, typeName_eq hs hh]
    | carrier c => cases hvs : h.parameters? c <;> simp [detailedTo, hvs, ih]
    | _ => rfl

theorem Schema.detailed_eq (v : Value) : s.detailed h v = S.detailed h v :=
  detailedTo_eq hs hh .standard _ v

theorem Schema.detailedList_eq (vs : List Value) : s.detailedList h vs = S.detailedList h vs := by
  simp only [detailedList, detailed_eq hs hh]

/-! ## Steps in words -/

/-- The arguments of a call that is planned for the types of the parameters. -/
theorem Operand.describe_eq {params : List Value} {t : Ty} {i : Nat} {args : List Operand}
    (hm : FieldPlan.matching? h S t params = some (i, args)) :
    args.map (Operand.describe s h) = args.map (Operand.describe S h) := by
  obtain ⟨⟨j, c⟩, -, he⟩ := Option.map_eq_some_iff.mp hm
  obtain ⟨-, rfl⟩ := Prod.mk.inj he
  apply List.map_congr_left
  intro a ha
  obtain ⟨⟨v, k⟩, -, rfl⟩ := List.mem_map.mp ha
  simp only [FieldPlan.operand]
  split
  · exact Schema.detailed_eq hs hh v
  · simp only [Operand.describe, Schema.name_eq hs (Schema.declares_typeOf hh v)]

end

section
variable (f : PropertyField) (source : Source)

@[simp]
theorem PropertyField.step_property : (f.step source).property = f.property.name := rfl

@[simp]
theorem PropertyField.step_fieldType : (f.step source).fieldType = f.fieldType := rfl

@[simp]
theorem PropertyField.step_parameters : (f.step source).parameters = f.parameters := rfl

@[simp]
theorem PropertyField.step_source : (f.step source).source = source := rfl

end

/-- A step is described alike if its source is. -/
theorem BuildStep.describe_eq (hs₁ : S.Extends s₁) (hs₂ : S.Extends s₂) (hh : h.Within S)
    {f : PropertyField} {source₁ source₂ : Source}
    (hsrc : (f.step source₁).describeSource s₁ h = (f.step source₂).describeSource s₂ h) :
    (f.step source₁).describe s₁ h = (f.step source₂).describe s₂ h := by
  have hlist : s₁.detailedList h = s₂.detailedList h := funext fun vs =>
    (Schema.detailedList_eq hs₁ hh vs).trans (Schema.detailedList_eq hs₂ hh vs).symm
  have hparameters : (f.step source₁).describeParameters s₁ h =
      (f.step source₂).describeParameters s₂ h := by
    simp only [describeParameters, hlist, PropertyField.step_parameters]
  simp only [describe, hsrc, hparameters, PropertyField.step_property]

section
variable {f : PropertyField} (hF : S.Declares f.fieldType)
include hF

/-- Lookups are described alike, whatever their numbers. -/
theorem BuildStep.describe_lookup (hs₁ : S.Extends s₁) (hs₂ : S.Extends s₂) (hh : h.Within S)
    (l₁ l₂ : LookupId) (c : CarrierSource) :
    (f.step (.lookup l₁ c)).describe s₁ h = (f.step (.lookup l₂ c)).describe s₂ h := by
  apply describe_eq hs₁ hs₂ hh
  simp only [describeSource, PropertyField.step_source, PropertyField.step_fieldType,
    Schema.name_eq hs₁ hF, Schema.name_eq hs₂ hF]

/-- The sources that the constructors of a class offer are described as in the schema at the
beginning. -/
theorem BuildStep.describe_sources (hs : S.Extends s) (hh : h.Within S) {source : Source}
    (hsrc : source ∈ (FieldPlan.sources h S f.fieldType f.parameters).1 ∨
      source ∈ (FieldPlan.sources h S f.fieldType f.parameters).2) :
    (f.step source).describe s h = (f.step source).describe S h := by
  apply describe_eq hs (.refl S) hh
  simp only [FieldPlan.sources] at hsrc
  split at hsrc
  · next i args hm =>
    obtain ⟨vs, -, hm⟩ := Option.bind_eq_some_iff.mp hm
    obtain rfl : source = .direct f.fieldType i args := by simpa [eq_comm] using hsrc
    simp only [describeSource, PropertyField.step_source, Schema.name_eq hs hF,
      mapM_congr (Operand.describe_eq hs hh hm)]
  · split at hsrc
    · have hc : ∃ i c, source = .withCarrier f.fieldType i c := by
        rcases hsrc with hsrc | hsrc
        · simp only [Option.mem_def, Option.map_eq_some_iff] at hsrc
          obtain ⟨-, -, rfl⟩ := hsrc
          exact ⟨_, _, rfl⟩
        · simp only [Option.mem_def, Option.some.injEq] at hsrc
          exact ⟨_, _, hsrc.symm⟩
      obtain ⟨i, c, rfl⟩ := hc
      simp only [describeSource, PropertyField.step_source, Schema.name_eq hs hF]
    · simp only [Option.mem_def, reduceCtorEq, Option.map_eq_some_iff, false_or] at hsrc
      obtain ⟨-, -, rfl⟩ := hsrc
      simp only [describeSource, PropertyField.step_source, Schema.name_eq hs hF, List.mapM_nil]

omit hF in
/-- Running a constructor without arguments is described by the name of the class. -/
theorem BuildStep.describe_direct (hs₁ : S.Extends s₁) (hs₂ : S.Extends s₂) (hh : h.Within S)
    {target₁ target₂ : Ty} (i₁ i₂ : Nat) (hn : s₁.name target₁ = s₂.name target₂) :
    (f.step (.direct target₁ i₁ [])).describe s₁ h =
      (f.step (.direct target₂ i₂ [])).describe s₂ h := by
  apply describe_eq hs₁ hs₂ hh
  simp only [describeSource, PropertyField.step_source, hn, List.mapM_nil]

end

/-! ## Plans in words -/

/-- What a report shows of a plan: the lines of its two constructors, and the info step with its
line. -/
def FieldPlan.lines (s : Schema) (h : Heap) (p : FieldPlan) :
    Option String × Option (Option String) × Option InfoStep × Option String :=
  (p.default.describe s h, p.factory.map (BuildStep.describe s h), p.info,
    p.info.map (InfoStep.describe s))

theorem InfoStep.describe_eq (hs : S.Extends s) {i : InfoStep} (hi : S.Declares i.propertyType) :
    i.describe s = i.describe S := by
  simp only [describe, Schema.name_eq hs hi]

theorem InfoStep.describe_info? {f : PropertyField} (hq : S.Declares f.property.type)
    (hs : S.Extends s) :
    (FieldPlan.info? S f).map (InfoStep.describe s) =
      (FieldPlan.info? S f).map (InfoStep.describe S) := by
  apply Option.map_congr
  intro i hi
  apply describe_eq hs
  simp only [FieldPlan.info?, Option.ite_none_right_eq_some, Option.some.injEq] at hi
  obtain ⟨-, rfl⟩ := hi
  exact hq

theorem FieldPlan.lines_ofConcrete {f : PropertyField} (hF : S.Declares f.fieldType)
    (hq : S.Declares f.property.type) (hs : S.Extends s) (hh : w.heap.Within S) {p : FieldPlan}
    (hp : FieldPlan.ofConcrete w f S = .ok p) : p.lines s w.heap = p.lines S w.heap := by
  obtain ⟨source, rfl, hsource⟩ := ofConcrete_eq_ok_iff.mp hp
  have hsrc : ∀ source, source ∈ (sources w.heap S f.fieldType f.parameters).1 ∨
        source ∈ (sources w.heap S f.fieldType f.parameters).2 →
      (f.step source).describe s w.heap = (f.step source).describe S w.heap :=
    fun _ => BuildStep.describe_sources hF hs hh
  have hdefault : (f.step source).describe s w.heap = (f.step source).describe S w.heap := by
    rcases hsource with h | ⟨-, i, -, rfl⟩
    · exact hsrc source (.inl h)
    · exact BuildStep.describe_direct hs (.refl S) hh i i (Schema.name_eq hs hF)
  have hfactory : ((sources w.heap S f.fieldType f.parameters).2.map f.step).map
        (BuildStep.describe s w.heap) =
      ((sources w.heap S f.fieldType f.parameters).2.map f.step).map
        (BuildStep.describe S w.heap) := by
    simp only [Option.map_map]
    exact Option.map_congr fun source h => hsrc source (.inr h)
  have hinfo := InfoStep.describe_info? hq hs
  simp only [lines]
  rw [hdefault, hfactory, hinfo]

section
variable {cache₁ cache₂ : List (Ty × DescriptorId)} {r₁ r₂ : Session}
variable (hs₁ : S.Extends r₁.schema) (hs₂ : S.Extends r₂.schema) (hh : w.heap.Within S)
include hs₁ hs₂ hh

/-- Two plans of one field show the same lines. -/
theorem FieldPlan.Realizes.lines_unique {f : PropertyField} {p₁ p₂ : Option FieldPlan}
    (hF : S.Declares f.fieldType) (hq : S.Declares f.property.type)
    (h₁ : FieldPlan.Realizes w S cache₁ r₁ f p₁)
    (h₂ : FieldPlan.Realizes { w with registry := reg } S cache₂ r₂ f p₂) :
    p₁.map (FieldPlan.lines r₁.schema w.heap) = p₂.map (FieldPlan.lines r₂.schema w.heap) := by
  cases h₁ with
  | free ho =>
    cases h₂ with
    | free => rw [Option.map_none, Option.map_none]
    | delegated ho' => rw [ho] at ho'; cases ho'
    | built ho' => rw [ho] at ho'; cases ho'
  | @delegated l₁ d₁ x₁ source₁ ho ha hl hd hx hp hsrc =>
    cases h₂ with
    | free ho' => rw [ho] at ho'; cases ho'
    | built _ ha' => rw [ha] at ha'; cases ha'
    | @delegated l₂ d₂ x₂ source₂ _ _ hl' hd' hx' hp' hsrc' =>
      have hfactory := BuildStep.describe_lookup hF hs₁ hs₂ hh l₁ l₂ .argument
      have hinfo := (InfoStep.describe_info? hq hs₁).trans (InfoStep.describe_info? hq hs₂).symm
      have hname : r₁.schema.name x₁.product = r₂.schema.name x₂.product := by
        obtain ⟨c, i, hc, -⟩ := id hp
        exact (hp.name_eq hc).trans (hp'.name_eq hc).symm
      have hdefault : (f.step source₁).describe r₁.schema w.heap =
          (f.step source₂).describe r₂.schema w.heap := by
        cases hpar : f.parameters with
        | none =>
          rw [hpar, Option.elim_none] at hsrc hsrc'
          rw [hsrc, hsrc']
          exact BuildStep.describe_direct hs₁ hs₂ hh _ _ hname
        | some vs =>
          rw [hpar, Option.elim_some] at hsrc hsrc'
          rw [hsrc, hsrc']
          exact BuildStep.describe_lookup hF hs₁ hs₂ hh l₁ l₂ .transient
      simp only [Option.map_some, lines]
      rw [hdefault, hfactory, hinfo]
  | built ho ha hp =>
    cases h₂ with
    | free ho' => rw [ho] at ho'; cases ho'
    | delegated _ ha' => rw [ha] at ha'; cases ha'
    | built _ _ hp' =>
      obtain rfl := Except.ok.inj (hp.symm.trans hp')
      simp only [Option.map_some, FieldPlan.lines_ofConcrete hF hq hs₁ hh hp,
        FieldPlan.lines_ofConcrete hF hq hs₂ hh hp]

end

/-! ## The report -/

/-- What two sessions agree on about a property of an implementation. -/
structure ForgedProperty.Agree (S s₁ s₂ : Schema) (h : Heap) (f₁ f₂ : ForgedProperty) : Prop where
  field : f₁.field = f₂.field
  shape : f₁.shape = f₂.shape
  lines : f₁.plan.map (FieldPlan.lines s₁ h) = f₂.plan.map (FieldPlan.lines s₂ h)
  declares : S.Declares f₁.field.fieldType ∧ S.Declares f₁.field.property.type

theorem map_eq_map_of_forall₂ {α β γ : Type} {R : α → β → Prop} {f : α → γ} {g : β → γ}
    {xs : List α} {ys : List β} (h : List.Forall₂ R xs ys) (hfg : ∀ {a b}, R a b → f a = g b) :
    xs.map f = ys.map g := by
  induction h with
  | nil => rfl
  | cons hab _ ih => rw [List.map_cons, List.map_cons, hfg hab, ih]

theorem filterMap_eq_filterMap_of_forall₂ {α β γ : Type} {R : α → β → Prop} {f : α → Option γ}
    {g : β → Option γ} {xs : List α} {ys : List β} (h : List.Forall₂ R xs ys)
    (hfg : ∀ {a b}, R a b → f a = g b) : xs.filterMap f = ys.filterMap g := by
  induction h with
  | nil => rfl
  | cons hab _ ih => rw [List.filterMap_cons, List.filterMap_cons, hfg hab, ih]

section
variable {cache₁ cache₂ : List (Ty × DescriptorId)} {r₁ r₂ : Session} {t : Ty} {c : ClassDecl}
variable {i₁ i₂ : Implementation}

theorem ForgedProperty.RealizeAll.agree {qs : List PropertyDecl} {slot : Nat}
    {fs₁ fs₂ : List ForgedProperty}
    (hf : ∀ {q slot r cache} {f : ForgedProperty}, q ∈ qs → f.Realizes w S cache r t q slot →
      S.Declares f.field.fieldType ∧ S.Declares f.field.property.type)
    (hs₁ : S.Extends r₁.schema) (hs₂ : S.Extends r₂.schema) (hh : w.heap.Within S)
    (h₁ : RealizeAll w S cache₁ r₁ t qs slot fs₁)
    (h₂ : RealizeAll { w with registry := reg } S cache₂ r₂ t qs slot fs₂) :
    List.Forall₂ (ForgedProperty.Agree S r₁.schema r₂.schema w.heap) fs₁ fs₂ := by
  induction h₁ generalizing fs₂ with
  | nil => cases h₂; exact .nil
  | @cons q qs slot f fs hf₁ _ ih =>
    cases h₂ with
    | @cons _ _ _ g gs hg hgs =>
      obtain ⟨hF, hq⟩ := hf List.mem_cons_self hf₁
      have hfield : f.field = g.field := Except.ok.inj (hf₁.field.symm.trans hg.field)
      refine .cons ⟨hfield, ?_, ?_, hF, hq⟩ (ih (fun hm => hf (List.mem_cons_of_mem _ hm)) hgs)
      · exact Except.ok.inj (hf₁.shape.symm.trans (hfield ▸ hg.shape))
      · exact hf₁.plan.lines_unique hs₁ hs₂ hh hF hq (hfield ▸ hg.plan)

theorem ForgedProperty.Agree.report_eq {s₁ s₂ : Schema} {f₁ f₂ : ForgedProperty}
    (h : ForgedProperty.Agree S s₁ s₂ w.heap f₁ f₂) (hs₁ : S.Extends s₁) (hs₂ : S.Extends s₂) :
    f₁.report s₁ = f₂.report s₂ := by
  have hname := (Schema.name_eq hs₁ h.declares.2).trans (Schema.name_eq hs₂ h.declares.2).symm
  have henum := (Schema.isEnum_eq hs₁ h.declares.2).trans (Schema.isEnum_eq hs₂ h.declares.2).symm
  rw [h.field] at hname henum
  have hgetter : f₁.describeGetter s₁ = f₂.describeGetter s₂ := by
    simp only [describeGetter, PropertyField.castType?, h.field, henum]
    split
    · rfl
    · split
      · simp only [Option.elim_some, hname]
      · simp only [Option.elim_none]
  simp only [ForgedProperty.report, hname, hgetter, describeSetter?, h.field, h.shape]

/-- The properties of two implementations of one class agree. -/
theorem Implementation.Realizes.agree (hS : S.Closed) (hp : w.provider.Within S)
    (hc : S.decl? t = some c) (ha : c.isAbstract = true) (hs₁ : S.Extends r₁.schema)
    (hs₂ : S.Extends r₂.schema) (hh : w.heap.Within S)
    (h₁ : i₁.Realizes w S cache₁ r₁ t c)
    (h₂ : i₂.Realizes { w with registry := reg } S cache₂ r₂ t c) :
    List.Forall₂ (ForgedProperty.Agree S r₁.schema r₂.schema w.heap) i₁.properties
      i₂.properties := by
  have ht : S.isAbstract t = true := by simp [Schema.isAbstract, hc, ha]
  refine h₁.properties.agree (fun hq hf => ?_) hs₁ hs₂ hh h₂.properties
  exact ⟨(hf.declares hS hp ht hq).1, (hf.declares hS hp ht hq).2.1⟩

/-- The calls of the two constructors of the abstract class are described alike. -/
theorem Implementation.describe_base {i : Implementation} (hd : S.Declares i.type)
    (hs₁ : S.Extends s₁) (hs₂ : S.Extends s₂) :
    (i.defaultBase? s₁).map (BaseCall.describe s₁) = (i.defaultBase? s₂).map (BaseCall.describe s₂) ∧
      (i.factoryBase? s₁).map (BaseCall.describe s₁) =
        (i.factoryBase? s₂).map (BaseCall.describe s₂) := by
  have hname := (Schema.name_eq hs₁ hd).trans (Schema.name_eq hs₂ hd).symm
  have hdefault : (i.defaultBase? s₁).map (BaseCall.describe s₁) =
      (i.defaultBase? s₂).map (BaseCall.describe s₂) := by
    simp only [defaultBase?, Schema.defaultConstructor?_eq hs₁ hd,
      Schema.defaultConstructor?_eq hs₂ hd, Option.map_map, Function.comp_def, BaseCall.describe,
      hname]
  refine ⟨hdefault, ?_⟩
  simp only [factoryBase?, Option.map_or, hdefault, Schema.findConstructor?_eq hs₁ hd,
    Schema.findConstructor?_eq hs₂ hd, Option.map_map, Function.comp_def, BaseCall.describe, hname]

/-- Construction plans are described alike if their parts are. -/
theorem ConstructionPlan.describe_congr {p₁ p₂ : ConstructionPlan}
    (hsteps : p₁.steps.map (BuildStep.describe s₁ h) = p₂.steps.map (BuildStep.describe s₂ h))
    (hinfos : p₁.infos.isEmpty = p₂.infos.isEmpty)
    (hbase : p₁.base.map (BaseCall.describe s₁) = p₂.base.map (BaseCall.describe s₂)) :
    p₁.describe s₁ h = p₂.describe s₂ h := by
  rw [describe, describe, mapM_congr hsteps, hinfos, hbase]

section
variable (hag : List.Forall₂ (ForgedProperty.Agree S s₁ s₂ w.heap) i₁.properties i₂.properties)
include hag

/-- What agrees on the plans of two implementations, line by line. -/
theorem Implementation.plans_agree {α : Type} (line : Option String × Option (Option String) ×
    Option InfoStep × Option String → Option α) :
    i₁.plans.filterMap (fun p => line (p.lines s₁ w.heap)) =
      i₂.plans.filterMap (fun p => line (p.lines s₂ w.heap)) := by
  simp only [plans, List.filterMap_filterMap]
  refine filterMap_eq_filterMap_of_forall₂ hag fun {f g} hfg => ?_
  have hl := congrArg (fun o => o.bind line) hfg.lines
  simpa only [Option.bind_map, Function.comp_def] using hl

theorem Implementation.describe_defaults :
    (i₁.plans.map FieldPlan.default).map (BuildStep.describe s₁ w.heap) =
      (i₂.plans.map FieldPlan.default).map (BuildStep.describe s₂ w.heap) := by
  have hl := plans_agree hag fun l => some l.1
  simpa only [List.filterMap_eq_map', List.map_map, Function.comp_def, FieldPlan.lines] using hl

theorem Implementation.describe_factories :
    (i₁.plans.filterMap FieldPlan.factory).map (BuildStep.describe s₁ w.heap) =
      (i₂.plans.filterMap FieldPlan.factory).map (BuildStep.describe s₂ w.heap) := by
  have hl := plans_agree hag fun l => l.2.1
  simpa only [List.map_filterMap, FieldPlan.lines] using hl

theorem Implementation.describe_infos :
    i₁.infos.map (InfoStep.describe s₁) = i₂.infos.map (InfoStep.describe s₂) := by
  have hl := plans_agree hag fun l => l.2.2.2
  simpa only [infos, List.map_filterMap, FieldPlan.lines] using hl

theorem Implementation.owned_names :
    (i₁.properties.filterMap fun f => f.plan.map fun _ => f.field.fieldName) =
      i₂.properties.filterMap fun f => f.plan.map fun _ => f.field.fieldName := by
  refine filterMap_eq_filterMap_of_forall₂ hag fun {f g} hfg => ?_
  have hl := congrArg (fun o => o.map fun _ => f.field.fieldName) hfg.lines
  simpa only [Option.map_map, Function.comp_def, hfg.field] using hl

end

/-- Two sessions report the same of the implementation of a class. -/
theorem Implementation.report_unique (hS : S.Closed) (hp : w.provider.Within S)
    (hc : S.decl? t = some c) (ha : c.isAbstract = true) (hs₁ : S.Extends r₁.schema)
    (hs₂ : S.Extends r₂.schema) (hh : w.heap.Within S)
    (h₁ : i₁.Realizes w S cache₁ r₁ t c)
    (h₂ : i₂.Realizes { w with registry := reg } S cache₂ r₂ t c) :
    i₁.report r₁.schema w.heap = i₂.report r₂.schema w.heap := by
  have h := h₁.agree hS hp hc ha hs₁ hs₂ hh h₂
  have hd : S.Declares i₁.type := h₁.type ▸ Schema.declares_of_decl? hc
  have htype : i₁.type = i₂.type := h₁.type.trans h₂.type.symm
  have hname : r₁.schema.name i₁.type = r₂.schema.name i₂.type := by
    rw [← htype, Schema.name_eq hs₁ hd, Schema.name_eq hs₂ hd]
  have hfields : (i₁.properties.map fun f =>
        (⟨f.field.slot, f.field.fieldName, r₁.schema.name f.field.fieldType⟩ : FieldReport)) =
      i₂.properties.map fun f =>
        ⟨f.field.slot, f.field.fieldName, r₂.schema.name f.field.fieldType⟩ :=
    map_eq_map_of_forall₂ h fun hfg => by
      rw [Schema.name_eq hs₁ hfg.declares.1, ← Schema.name_eq hs₂ hfg.declares.1, hfg.field]
  have hproperties : i₁.properties.map (ForgedProperty.report r₁.schema) =
      i₂.properties.map (ForgedProperty.report r₂.schema) :=
    map_eq_map_of_forall₂ h fun hfg => hfg.report_eq hs₁ hs₂
  have hinfos := describe_infos h
  have hempty : i₁.infos.isEmpty = i₂.infos.isEmpty := by
    have hl := congrArg List.isEmpty hinfos
    simpa only [List.isEmpty_map] using hl
  obtain ⟨hbd, hbf⟩ := describe_base (i := i₁) hd hs₁ hs₂
  have hdefault : (i₁.defaultPlan r₁.schema).describe r₁.schema w.heap =
      (i₂.defaultPlan r₂.schema).describe r₂.schema w.heap := by
    refine ConstructionPlan.describe_congr (describe_defaults h) hempty (hbd.trans ?_)
    simp only [defaultBase?, htype, defaultPlan]
  have hfactory : (i₁.factoryPlan r₁.schema).describe r₁.schema w.heap =
      (i₂.factoryPlan r₂.schema).describe r₂.schema w.heap := by
    refine ConstructionPlan.describe_congr (describe_factories h) hempty (hbf.trans ?_)
    simp only [factoryBase?, defaultBase?, htype, factoryPlan]
  rw [report, report, h₁.name.trans h₂.name.symm, hname, h₁.base.trans h₂.base.symm, hfields,
    hproperties, hdefault, hfactory, hinfos, owned_names h]

end

/-! ## Reports that have an end -/

/-- The implementation of a class can be reported: no construction parameter of a field that it owns leads
to a carrier that holds itself. -/
def Provider.Reports (p : Provider) (h : Heap) (s : Schema) (t : Ty) : Prop :=
  ∀ q ∈ s.abstractProperties t, ∀ F m, p.Chooses s t q F m → p.owns s F = true →
    ∀ vs ∈ p.parameters t q, ∀ v ∈ vs, ¬v.Endless h

/-- Whether the implementation of a class can be reported. -/
noncomputable def Workshop.ends (w : Workshop) (S : Schema) (t : Ty) : Bool :=
  @decide (w.provider.Reports w.heap S t) (Classical.propDecidable _)

theorem Workshop.ends_eq_true_iff {t : Ty} :
    w.ends S t = true ↔ w.provider.Reports w.heap S t :=
  @decide_eq_true_iff _ (Classical.propDecidable _)

theorem Workshop.ends_registry (reg : RegistryId) : { w with registry := reg }.ends S = w.ends S := rfl

/-- Whether an implementation can be reported does not depend on what is added to the schema. -/
theorem Workshop.ends_eq (hs : S.Extends s) (hS : S.Closed) (hp : w.provider.Within S) {t : Ty}
    (hd : S.Declares t) (ht : S.isAbstract t = true) : w.ends s t = w.ends S t := by
  have hchooses : ∀ q ∈ S.abstractProperties t, ∀ F m,
      w.provider.Chooses s t q F m ↔ w.provider.Chooses S t q F m := by
    intro q hq F m
    have hfield : ∀ {s : Schema}, w.provider.Chooses s t q F m ↔ PropertyField.choose w s t q 0 =
        .ok ⟨t, q, F, m, w.provider.parameters t q, 0⟩ := by
      intro s
      rw [PropertyField.choose_eq_ok_iff]
      exact ⟨fun hc => ⟨F, m, hc, rfl⟩, fun ⟨F', m', hc, he⟩ => by cases he; exact hc⟩
    rw [hfield, hfield, PropertyField.choose_eq hs hS hp ht hd hq]
  have howns : ∀ q ∈ S.abstractProperties t, ∀ F m, w.provider.Chooses S t q F m →
      w.provider.owns s F = w.provider.owns S F := fun q hq F m hc =>
    Provider.owns_eq hs (hc.declares hS hp ht hq)
  rw [Bool.eq_iff_iff, ends_eq_true_iff, ends_eq_true_iff, Provider.Reports, Provider.Reports,
    Schema.abstractProperties_eq hs hS hd]
  constructor
  · exact fun h q hq F m hc ho =>
      h q hq F m ((hchooses q hq F m).mpr hc) ((howns q hq F m hc).trans ho)
  · intro h q hq F m hc ho
    have hc := (hchooses q hq F m).mp hc
    exact h q hq F m hc ((howns q hq F m hc).symm.trans ho)

/-- A step is described if its source is, and none of its parameters is without a text. -/
theorem BuildStep.describe_isSome_iff {step : BuildStep}
    (hsource : (step.describeSource s h).isSome = true) :
    (step.describe s h).isSome = true ↔ ∀ vs ∈ step.parameters, ∀ v ∈ vs, ¬v.Endless h := by
  obtain ⟨source, hsource⟩ := Option.isSome_iff_exists.mp hsource
  have hdescribe : (step.describe s h).isSome = (step.describeParameters s h).isSome := by
    rw [describe, hsource]
    cases step.describeParameters s h <;> rfl
  rw [hdescribe, describeParameters]
  cases step.parameters with
  | none => simp
  | some vs => simp [Schema.detailedList_isSome_iff]

/-- An argument that is kept as it is has a text. -/
theorem Operand.describe_operand_isSome (k : Nat) (v : Value) :
    ((FieldPlan.operand h k v).describe s h).isSome = true := by
  rw [FieldPlan.operand]
  split
  · next hliteral =>
    rw [describe, Option.isSome_iff_ne_none, ne_eq, Schema.detailed_eq_none_iff]
    rintro ⟨c, -, rfl, -⟩
    cases hliteral
  · rfl

/-- The arguments of each constructor that is planned have texts. -/
theorem FieldPlan.describeSource_isSome {f : PropertyField} {t : Ty} {source : Source}
    (hsource : source ∈ (sources h S t f.parameters).1 ∨ source ∈ (sources h S t f.parameters).2) :
    ((f.step source).describeSource s h).isSome = true := by
  simp only [sources] at hsource
  split at hsource
  · next i args hm =>
    obtain ⟨vs, -, hm⟩ := Option.bind_eq_some_iff.mp hm
    obtain ⟨⟨j, c⟩, -, he⟩ := Option.map_eq_some_iff.mp hm
    obtain ⟨-, rfl⟩ := Prod.mk.inj he
    obtain rfl : source = .direct t i _ := by simpa [eq_comm] using hsource
    rw [BuildStep.describeSource, PropertyField.step_source, Option.isSome_map, mapM_isSome_iff]
    intro a ha
    obtain ⟨⟨v, k⟩, -, rfl⟩ := List.mem_map.mp ha
    exact Operand.describe_operand_isSome k v
  · split at hsource
    · rcases hsource with hsource | hsource
      · obtain ⟨-, -, rfl⟩ := Option.map_eq_some_iff.mp hsource
        rfl
      · obtain rfl := Option.some.inj hsource
        rfl
    · rcases hsource with hsource | hsource
      · exact (Option.not_mem_none _ hsource).elim
      · obtain ⟨-, -, rfl⟩ := Option.map_eq_some_iff.mp hsource
        rfl

section
variable {cache : List (Ty × DescriptorId)} {r : Session} {t : Ty} {c : ClassDecl}
variable {f : PropertyField} {plan : FieldPlan} {i : Implementation}

/-- A field with a plan is owned. -/
theorem FieldPlan.Realizes.owns (hp : FieldPlan.Realizes w S cache r f (some plan)) :
    w.provider.owns S f.fieldType = true := by
  cases hp with
  | delegated ho => exact ho
  | built ho => exact ho

/-- A step of a plan is described if each of the parameters of its field has a text. -/
theorem FieldPlan.Realizes.describe_isSome_iff (hp : FieldPlan.Realizes w S cache r f (some plan))
    (s : Schema) {step : BuildStep} (hstep : step = plan.default ∨ plan.factory = some step) :
    (step.describe s w.heap).isSome = true ↔ ∀ vs ∈ f.parameters, ∀ v ∈ vs, ¬v.Endless w.heap := by
  obtain ⟨source, rfl, hsource⟩ : ∃ source, step = f.step source ∧
      ((f.step source).describeSource s w.heap).isSome = true := by
    cases hp with
    | delegated _ _ _ _ _ _ hs =>
      rcases hstep with rfl | hstep
      · refine ⟨_, rfl, ?_⟩
        rw [hs]
        cases f.parameters <;> rfl
      · exact ⟨_, (Option.some.inj hstep).symm, rfl⟩
    | built _ _ hp =>
      obtain ⟨source, rfl, hchosen⟩ := ofConcrete_eq_ok_iff.mp hp
      rcases hstep with rfl | hstep
      · refine ⟨source, rfl, ?_⟩
        rcases hchosen with hsome | ⟨-, k, -, rfl⟩
        · exact describeSource_isSome (.inl hsome)
        · rfl
      · obtain ⟨factory, hfactory, rfl⟩ := Option.map_eq_some_iff.mp hstep
        exact ⟨factory, rfl, describeSource_isSome (.inr hfactory)⟩
  exact BuildStep.describe_isSome_iff hsource

/-- A plan is described if each of its steps is. -/
theorem ConstructionPlan.describe_isSome_iff {p : ConstructionPlan} :
    (p.describe s h).isSome = true ↔ ∀ step ∈ p.steps, (step.describe s h).isSome = true := by
  rw [describe, Option.isSome_map, mapM_isSome_iff]

/-- **An implementation has a report** if its class can be reported. -/
theorem Implementation.Realizes.report_isSome_iff (hi : i.Realizes w S cache r t c) (s : Schema) :
    (i.report s w.heap).isSome = true ↔ w.provider.Reports w.heap S t := by
  have hplans : (i.report s w.heap).isSome = true ↔
      ((i.defaultPlan s).describe s w.heap).isSome = true ∧
        ((i.factoryPlan s).describe s w.heap).isSome = true := by
    rw [report]
    cases (i.defaultPlan s).describe s w.heap <;> cases (i.factoryPlan s).describe s w.heap <;> simp
  rw [hplans, ConstructionPlan.describe_isSome_iff, ConstructionPlan.describe_isSome_iff]
  constructor
  · rintro ⟨hdefault, -⟩ q hq F m hc ho
    obtain ⟨f, hf, k, hrealizes⟩ := hi.properties.exists_of_mem hq
    obtain ⟨F', m', hc', he⟩ := hrealizes.eq
    obtain ⟨rfl, -⟩ := hc.unique hc'
    have hplan := hrealizes.plan
    cases hfp : f.plan with
    | none =>
      rw [hfp, he] at hplan
      cases hplan with
      | free hfree => cases ho.symm.trans hfree
    | some plan =>
      have hstep := hdefault plan.default
        (List.mem_map_of_mem (List.mem_filterMap.mpr ⟨f, hf, hfp⟩))
      rw [hfp] at hplan
      have hparameters := (hplan.describe_isSome_iff s (.inl rfl)).mp hstep
      rwa [he] at hparameters
  · intro hends
    have hdescribed : ∀ plan ∈ i.plans, ∀ step, step = plan.default ∨ plan.factory = some step →
        (step.describe s w.heap).isSome = true := by
      intro plan hplan step hstep
      obtain ⟨f, hf, hfp⟩ := List.mem_filterMap.mp hplan
      obtain ⟨q, hq, k, hrealizes⟩ := hi.properties.mem hf
      obtain ⟨F, m, hc, he⟩ := hrealizes.eq
      have hplan := hrealizes.plan
      rw [hfp] at hplan
      refine (hplan.describe_isSome_iff s hstep).mpr ?_
      have ho := hplan.owns
      rw [he] at ho ⊢
      exact hends q hq F m hc ho
    constructor
    · intro step hstep
      obtain ⟨plan, hplan, rfl⟩ := List.mem_map.mp hstep
      exact hdescribed plan hplan _ (.inl rfl)
    · intro step hstep
      obtain ⟨plan, hplan, hfactory⟩ := List.mem_filterMap.mp hstep
      exact hdescribed plan hplan _ (.inr hfactory)

end

/-! ## Descriptors -/

/-- Two descriptors agree on everything but the class of the instances. -/
def Descriptor.Alike (x y : Descriptor) : Prop := x = { y with product := x.product }

section
variable {cache cache₁ cache₂ : List (Ty × DescriptorId)} {r₁ r₂ : Session} {t : Ty}
variable {x₁ x₂ : Descriptor}
variable (hS : S.Closed) (hp : w.provider.Within S) (hh : w.heap.Within S)
include hS hp hh

/-- What serves a class in a session serves it in every later one. -/
theorem Descriptor.Serves.mono (hs : S.Extends r₁.schema)
    (h : Session.Extends cache₁ cache₂ r₁ r₂) (hx : x₁.Serves w S cache₁ r₁ t) :
    x₁.Serves w S cache₂ r₂ t := by
  cases hx with
  | concrete hc hm ha hx => exact .concrete hc hm ha hx
  | @implemented c i report hc hm ha hi hpr hr hx =>
    have hreport := Implementation.report_unique hS hp hc ha hs (hs.trans h.schema) hh hi (hi.mono h)
    exact .implemented hc hm ha (hi.mono h) (Schema.decl?_mono h.schema hpr) (hreport.symm.trans hr) hx

/-- Two sessions serve a class by descriptors that are alike. -/
theorem Descriptor.Serves.alike (hs₁ : S.Extends r₁.schema) (hs₂ : S.Extends r₂.schema)
    (h₁ : x₁.Serves w S cache₁ r₁ t)
    (h₂ : x₂.Serves { w with registry := reg } S cache₂ r₂ t) : x₁.Alike x₂ := by
  cases h₁ with
  | concrete hc _ ha hx =>
    cases h₂ with
    | concrete _ _ _ hx' => rw [hx, hx']; rfl
    | implemented hc' _ ha' =>
      obtain rfl := Option.some.inj (hc.symm.trans hc')
      rw [ha] at ha'; cases ha'
  | @implemented c i₁ report₁ hc _ ha hi hpr hr hx =>
    cases h₂ with
    | concrete hc' _ ha' =>
      obtain rfl := Option.some.inj (hc.symm.trans hc')
      rw [ha] at ha'; cases ha'
    | @implemented c' i₂ report₂ hc' _ _ hi' hpr' hr' hx' =>
      obtain rfl := Option.some.inj (hc.symm.trans hc')
      have hagree := hi.agree hS hp hc ha hs₁ hs₂ hh hi'
      have hreport : report₁ = report₂ := Option.some.inj (hr.symm.trans
        ((Implementation.report_unique hS hp hc ha hs₁ hs₂ hh hi hi').trans hr'))
      have hparameters : i₁.parameters = i₂.parameters :=
        filterMap_eq_filterMap_of_forall₂ hagree fun hfg => by rw [hfg.field]
      have htype : i₁.type = i₂.type := hi.type.trans hi'.type.symm
      rw [Alike, hx, hx']
      simp only [Implementation.descriptor, hparameters, htype, hreport]

end

end RecordForge
