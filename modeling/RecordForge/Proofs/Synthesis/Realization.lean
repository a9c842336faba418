import RecordForge.Proofs.Synthesis.Field
import RecordForge.Registry

/-!
# What a session makes

`Implementation.Realizes` says declaratively what the implementation of an abstract class consists
of: for each abstract public property, in order, the field that is chosen for it, the plan by which
the field is built, and the way the property is written. `Descriptor.Serves` says the same of a
descriptor.

All of it is said over the schema `S` at the beginning of a request, so it is not affected by what
the session adds: it stays true in every later session (`Serves.mono`).
-/

namespace RecordForge

/-! ## Growth of a session -/

/-- The descriptor that a session knows for a type: a published one or one of its own. -/
def Session.known? (cache : List (Ty × DescriptorId)) (s : Session) (t : Ty) :
    Option DescriptorId :=
  (cache.lookup t).or (s.staged.lookup t)

/-- What a lookup asks for, and whom. -/
def Lookup.question (l : Lookup) : Ty × RegistryId := (l.fieldType, l.registry)

/-- What is in `s` is in `s'`. -/
structure Session.Extends (cache cache' : List (Ty × DescriptorId)) (s s' : Session) : Prop where
  schema : s.schema.Extends s'.schema
  descriptors : ∀ {d : DescriptorId} {x}, s.descriptors[d]? = some x → s'.descriptors[d]? = some x
  lookups : ∀ {l : LookupId} {x}, (s.lookups[l]?).map Lookup.question = some x →
    (s'.lookups[l]?).map Lookup.question = some x
  known : ∀ {t d}, s.known? cache t = some d → s'.known? cache' t = some d

namespace Session

variable {s s' s'' : Session} {cache cache' cache'' : List (Ty × DescriptorId)} {t : Ty}

theorem Extends.refl (cache : List (Ty × DescriptorId)) (s : Session) : Extends cache cache s s :=
  ⟨.refl _, id, id, id⟩

theorem Extends.trans (h : Extends cache cache' s s') (h' : Extends cache' cache'' s' s'') :
    Extends cache cache'' s s'' where
  schema := h.schema.trans h'.schema
  descriptors hd := h'.descriptors (h.descriptors hd)
  lookups hl := h'.lookups (h.lookups hl)
  known ht := h'.known (h.known ht)

theorem getElem?_push_of_some {α : Type} {xs : Array α} {x y : α} {i : Nat}
    (h : xs[i]? = some x) : (xs.push y)[i]? = some x := by
  have hlt : i < xs.size := (Array.getElem?_eq_some_iff.mp h).1
  rw [Array.getElem?_push_lt hlt, ← Array.getElem?_eq_getElem hlt, h]

theorem extends_addLookup (s : Session) (l : Lookup) : Extends cache cache s (s.addLookup l).2 where
  schema := .refl _
  descriptors := id
  lookups h := by
    obtain ⟨x, hx, he⟩ := Option.map_eq_some_iff.mp h
    exact Option.map_eq_some_iff.mpr ⟨x, getElem?_push_of_some hx, he⟩
  known := id

/-- The number of a new lookup. -/
theorem addLookup_lookups (s : Session) (l : Lookup) :
    (s.addLookup l).2.lookups[(s.addLookup l).1]? = some l :=
  Array.getElem?_push_size

theorem known?_stage (s : Session) (u : Ty) (d : Descriptor) :
    (s.stage u d).2.known? cache t =
      (s.known? cache t).or (if t = u then some (s.stage u d).1 else none) := by
  have hlast : [(u, s.descriptors.size)].lookup t =
      if t = u then some s.descriptors.size else none := by
    by_cases h : t = u
    · simp [h]
    · simp only [List.lookup_cons, beq_false_of_ne h, List.lookup_nil, if_neg h]
  simp only [known?, stage, List.lookup_append, hlast, Option.or_assoc]

theorem extends_stage (s : Session) (t : Ty) (d : Descriptor) :
    Extends cache cache s (s.stage t d).2 where
  schema := .refl _
  descriptors h := getElem?_push_of_some h
  lookups := id
  known h := by rw [known?_stage, h, Option.some_or]

/-- The number of a new descriptor. -/
theorem stage_descriptors (s : Session) (t : Ty) (d : Descriptor) :
    (s.stage t d).2.descriptors[(s.stage t d).1]? = some d :=
  Array.getElem?_push_size

theorem extends_addClass (s : Session) (d : ClassDecl) :
    Extends cache cache s (s.addClass d).2 where
  schema := Schema.extends_addClass s.schema d
  descriptors := id
  lookups := id
  known := id

end Session

/-! ## Implementations -/

section
variable (w : Workshop) (S : Schema) (cache : List (Ty × DescriptorId)) (s : Session)

/-- The name of the implementation of a class. -/
def Workshop.productName (c : ClassDecl) : String :=
  c.name ++ "." ++ w.nameInfix ++ "." ++ Schema.shortOf c.name

/-- A type of the schema `s'` has the name of the implementation of `F`. -/
def Workshop.IsProduct (s' : Schema) (F product : Ty) : Prop :=
  ∃ c d, S.decl? F = some c ∧ s'.decl? product = some d ∧ d.name = w.productName c

/-- The plan by which a field is built. A field that is not owned has none. If its type is abstract
then the session knows a descriptor for it, to which both constructors turn; the default
constructor runs that of the implementation itself if there are no construction parameters. -/
inductive FieldPlan.Realizes (f : PropertyField) : Option FieldPlan → Prop
  | free (ho : w.provider.owns S f.fieldType = false) : Realizes f none
  | delegated {l : LookupId} {d : DescriptorId} {x : Descriptor} {source : Source}
      (ho : w.provider.owns S f.fieldType = true) (ha : S.isAbstract f.fieldType = true)
      (hl : (s.lookups[l]?).map Lookup.question = some (f.fieldType, w.registry))
      (hd : s.known? cache f.fieldType = some d) (hx : s.descriptors[d]? = some x)
      (hp : w.IsProduct S s.schema f.fieldType x.product)
      (hs : source = f.parameters.elim (.direct x.product defaultIndex [])
        fun _ => .lookup l .transient) :
      Realizes f (some ⟨f.step source, some (f.step (.lookup l .argument)), info? S f⟩)
  | built {plan : FieldPlan} (ho : w.provider.owns S f.fieldType = true)
      (ha : S.isAbstract f.fieldType = false) (hp : FieldPlan.ofConcrete w f S = .ok plan) :
      Realizes f (some plan)

/-- A property of an implementation with the field that is chosen for it. -/
structure ForgedProperty.Realizes (t : Ty) (q : PropertyDecl) (slot : Nat)
    (f : ForgedProperty) : Prop where
  field : PropertyField.choose w S t q slot = .ok f.field
  plan : FieldPlan.Realizes w S cache s f.field f.plan
  shape : f.field.setterShape S = .ok f.shape

/-- Properties of an implementation, with their fields at consecutive slots. -/
inductive ForgedProperty.RealizeAll (t : Ty) :
    List PropertyDecl → Nat → List ForgedProperty → Prop
  | nil {slot : Nat} : RealizeAll t [] slot []
  | cons {q : PropertyDecl} {qs : List PropertyDecl} {slot : Nat} {f : ForgedProperty}
      {fs : List ForgedProperty} (hf : f.Realizes w S cache s t q slot)
      (hfs : RealizeAll t qs (slot + 1) fs) : RealizeAll t (q :: qs) slot (f :: fs)

/-- The implementation of an abstract class: its properties are the abstract public ones, and their
fields follow those of the class. -/
structure Implementation.Realizes (t : Ty) (c : ClassDecl) (i : Implementation) : Prop where
  type : i.type = t
  base : i.base = c
  name : i.name = w.productName c
  properties : ForgedProperty.RealizeAll w S cache s t (S.abstractProperties t) c.layout.length
    i.properties

/-- The class that a source names. A lookup names none. -/
def Source.target? : Source → Option Ty
  | .lookup .. => none
  | .direct target .. | .withCarrier target .. => some target

/-- The plans of a class name earlier classes than a number only. -/
def ClassDecl.BuildsBelow (n : ClassId) (d : ClassDecl) : Prop :=
  ∀ c ∈ d.constructors, ∀ p, c.body = .plan p → ∀ step ∈ p.steps,
    ∀ t ∈ step.source.target?, ∃ k, t = .cls k ∧ k < n

/-- The descriptor of a mapped class: of the class itself if it is not abstract, else of its
implementation. -/
inductive Descriptor.Serves (t : Ty) (x : Descriptor) : Prop
  | concrete {c : ClassDecl} (hc : S.decl? t = some c) (hm : w.provider.isMapped t c = true)
      (ha : c.isAbstract = false) (hx : x = Descriptor.concrete S t w.listener)
  | implemented {c : ClassDecl} {i : Implementation} {report : Report} (hc : S.decl? t = some c)
      (hm : w.provider.isMapped t c = true) (ha : c.isAbstract = true)
      (hi : i.Realizes w S cache s t c) (hp : s.schema.decl? x.product = some (i.decl S))
      (hr : i.report s.schema w.heap = some report) (hx : x = i.descriptor w report x.product)

end

/-- A type that is served is declared. -/
theorem Descriptor.Serves.declares {w : Workshop} {S : Schema} {cache : List (Ty × DescriptorId)}
    {s : Session} {t : Ty} {x : Descriptor} (hx : x.Serves w S cache s t) : S.Declares t := by
  cases hx with
  | concrete hc => exact Schema.declares_of_decl? hc
  | implemented hc => exact Schema.declares_of_decl? hc

/-- The descriptor that serves a type is one of that type. -/
theorem Descriptor.Serves.type_eq {w : Workshop} {S : Schema} {cache : List (Ty × DescriptorId)}
    {s : Session} {t : Ty} {x : Descriptor} (hx : x.Serves w S cache s t) : x.type = t := by
  cases hx with
  | concrete _ _ _ hx => rw [hx]; rfl
  | implemented _ _ _ hi _ _ hx => rw [hx]; exact hi.type

/-! ## What later sessions keep -/

section
variable {w : Workshop} {S S' : Schema} {cache cache' : List (Ty × DescriptorId)} {s s' : Session}
variable {t F product : Ty} {q : PropertyDecl} {qs : List PropertyDecl} {slot : Nat}

theorem Schema.decl?_mono {s s' : Schema} (h : s.Extends s') {d : ClassDecl}
    (hd : s.decl? t = some d) : s'.decl? t = some d := by
  rw [decl?_eq h (declares_of_decl? hd), hd]

theorem Workshop.IsProduct.mono {s s' : Schema} (h : s.Extends s')
    (hp : w.IsProduct S s F product) : w.IsProduct S s' F product := by
  obtain ⟨c, d, hc, hd, hn⟩ := hp
  exact ⟨c, d, hc, Schema.decl?_mono h hd, hn⟩

theorem FieldPlan.Realizes.mono (h : Session.Extends cache cache' s s') {f : PropertyField}
    {plan : Option FieldPlan} (hp : FieldPlan.Realizes w S cache s f plan) :
    FieldPlan.Realizes w S cache' s' f plan := by
  cases hp with
  | free ho => exact .free ho
  | delegated ho ha hl hd hx hp hs =>
    exact .delegated ho ha (h.lookups hl) (h.known hd) (h.descriptors hx) (hp.mono h.schema) hs
  | built ho ha hp => exact .built ho ha hp

theorem ForgedProperty.Realizes.mono (h : Session.Extends cache cache' s s') {f : ForgedProperty}
    (hf : f.Realizes w S cache s t q slot) : f.Realizes w S cache' s' t q slot :=
  ⟨hf.field, hf.plan.mono h, hf.shape⟩

theorem ForgedProperty.RealizeAll.mono (h : Session.Extends cache cache' s s')
    {fs : List ForgedProperty} (hfs : RealizeAll w S cache s t qs slot fs) :
    RealizeAll w S cache' s' t qs slot fs := by
  induction hfs with
  | nil => exact .nil
  | cons hf _ ih => exact .cons (hf.mono h) ih

theorem Implementation.Realizes.mono (h : Session.Extends cache cache' s s') {c : ClassDecl}
    {i : Implementation} (hi : i.Realizes w S cache s t c) : i.Realizes w S cache' s' t c :=
  ⟨hi.type, hi.base, hi.name, hi.properties.mono h⟩

/-- The product of an abstract field type has the name of the implementation. -/
theorem Workshop.IsProduct.name_eq {s : Schema} {c : ClassDecl} (hp : w.IsProduct S s F product)
    (hc : S.decl? F = some c) : s.name product = w.productName c := by
  obtain ⟨c', d, hc', hd, hn⟩ := hp
  obtain rfl : c' = c := Option.some.inj (hc'.symm.trans hc)
  cases product with
  | cls k =>
    have hd : s.class? k = some d := hd
    show (s.class? k).elim "" ClassDecl.name = _
    rw [hd]
    exact hn
  | any => simp [Schema.decl?] at hd
  | carrier => simp [Schema.decl?] at hd
  | scalar k => simp [Schema.decl?] at hd
  | enum e => simp [Schema.decl?] at hd

/-- An implementation has a public constructor without arguments, its first one. -/
theorem Implementation.publicDefault?_eq {s : Schema} {i : Implementation}
    (hd : s.decl? product = some (i.decl S)) : s.publicDefault? product = some defaultIndex := by
  simp only [Schema.publicDefault?, Schema.defaultConstructor?, Schema.findConstructor?,
    Schema.constructors, hd, Option.elim_some]
  rfl

/-! ## The class of an implementation -/

/-- The entries of `RealizeAll`, one by one. -/
theorem ForgedProperty.RealizeAll.mem {fs : List ForgedProperty}
    (hfs : RealizeAll w S cache s t qs slot fs) {f : ForgedProperty} (hf : f ∈ fs) :
    ∃ q ∈ qs, ∃ k, f.Realizes w S cache s t q (slot + k) := by
  induction hfs with
  | nil => cases hf
  | @cons q qs slot g gs hg _ ih =>
    rcases List.mem_cons.mp hf with rfl | hf
    · exact ⟨q, List.mem_cons_self, 0, hg⟩
    · obtain ⟨q', hq', k, hk⟩ := ih hf
      exact ⟨q', List.mem_cons_of_mem _ hq', k + 1, by rwa [Nat.add_comm k 1, ← Nat.add_assoc]⟩

/-- Each property has its entry. -/
theorem ForgedProperty.RealizeAll.exists_of_mem {fs : List ForgedProperty}
    (hfs : RealizeAll w S cache s t qs slot fs) (hq : q ∈ qs) :
    ∃ f ∈ fs, ∃ k, f.Realizes w S cache s t q (slot + k) := by
  induction hfs with
  | nil => cases hq
  | @cons q' qs slot g gs hg _ ih =>
    rcases List.mem_cons.mp hq with rfl | hq
    · exact ⟨g, List.mem_cons_self, 0, hg⟩
    · obtain ⟨f, hf, k, hk⟩ := ih hq
      exact ⟨f, List.mem_cons_of_mem _ hf, k + 1, by rwa [Nat.add_comm k 1, ← Nat.add_assoc]⟩

/-- What a chosen field consists of. -/
theorem ForgedProperty.Realizes.eq {f : ForgedProperty} (hf : f.Realizes w S cache s t q slot) :
    ∃ F m, w.provider.Chooses S t q F m ∧
      f.field = ⟨t, q, F, m, w.provider.parameters t q, slot⟩ :=
  PropertyField.choose_eq_ok_iff.mp hf.field

/-- The properties of an implementation are the abstract ones of its class, in order. -/
theorem ForgedProperty.RealizeAll.properties {fs : List ForgedProperty}
    (h : RealizeAll w S cache s t qs slot fs) : fs.map (fun f => f.field.property) = qs := by
  induction h with
  | nil => rfl
  | cons hf _ ih =>
    obtain ⟨F, m, -, he⟩ := hf.eq
    rw [List.map_cons, ih, he]

/-- The types of a chosen field are declared. -/
theorem ForgedProperty.Realizes.declares (hS : S.Closed) (hp : w.provider.Within S)
    (ht : S.isAbstract t = true) (hq : q ∈ S.abstractProperties t) {f : ForgedProperty}
    (hf : f.Realizes w S cache s t q slot) :
    S.Declares f.field.fieldType ∧ S.Declares f.field.property.type ∧ f.field.owner = t := by
  obtain ⟨F, m, hc, he⟩ := hf.eq
  rw [he]
  exact ⟨hc.declares hS hp ht hq, hS.declares_abstractProperty hq, rfl⟩

/-- Constructors are planned for the class itself. -/
theorem FieldPlan.target?_sources (h : Heap) (S : Schema) (F : Ty) (params : Option (List Value)) :
    (∀ source ∈ (sources h S F params).1, source.target? = some F) ∧
      ∀ source ∈ (sources h S F params).2, source.target? = some F := by
  rw [sources]
  split
  · exact ⟨fun _ h => Option.some.inj h ▸ rfl, fun _ h => Option.some.inj h ▸ rfl⟩
  · split
    · refine ⟨fun source h => ?_, fun _ h => Option.some.inj h ▸ rfl⟩
      obtain ⟨_, -, rfl⟩ := Option.map_eq_some_iff.mp h
      rfl
    · refine ⟨fun _ h => (Option.not_mem_none _ h).elim, fun source h => ?_⟩
      obtain ⟨_, -, rfl⟩ := Option.map_eq_some_iff.mp h
      rfl

/-- The steps of a plan build the field, one for each constructor. They construct the class itself if it
is not abstract. -/
theorem FieldPlan.Realizes.eq {f : PropertyField} {plan : FieldPlan}
    (hp : FieldPlan.Realizes w S cache s f (some plan)) : ∃ source factory,
      plan = ⟨f.step source, some (f.step factory), info? S f⟩ ∧ (S.isAbstract f.fieldType = false →
        source.target? = some f.fieldType ∧ factory.target? = some f.fieldType) := by
  cases hp with
  | delegated _ ha => exact ⟨_, _, rfl, fun hconcrete => nomatch ha.symm.trans hconcrete⟩
  | built _ _ hp =>
    obtain ⟨source, rfl, hsource⟩ := FieldPlan.ofConcrete_eq_ok_iff.mp hp
    obtain ⟨hdefault, hfactory⟩ := FieldPlan.target?_sources w.heap S f.fieldType f.parameters
    have htarget : source.target? = some f.fieldType ∧
        ((sources w.heap S f.fieldType f.parameters).1.isSome = true ∨
          (S.publicDefault? f.fieldType).isSome = true) := by
      rcases hsource with hsome | ⟨-, i, hi, rfl⟩
      · exact ⟨hdefault source hsome, .inl (by rw [hsome]; rfl)⟩
      · exact ⟨rfl, .inr (by rw [hi]; rfl)⟩
    obtain ⟨factory, hsome⟩ := Option.isSome_iff_exists.mp (sources_factory_isSome htarget.2)
    exact ⟨source, factory, by rw [hsome]; rfl, fun _ => ⟨htarget.1, hfactory factory hsome⟩⟩

/-- The steps of a plan name classes that the session has. -/
theorem FieldPlan.Realizes.target {f : PropertyField} {plan : FieldPlan}
    (hp : FieldPlan.Realizes w S cache s f (some plan)) (h : S.Extends s.schema) {step : BuildStep}
    (hstep : step = plan.default ∨ plan.factory = some step) {u : Ty}
    (hu : step.source.target? = some u) : ∃ k, u = .cls k ∧ k < s.schema.classes.size := by
  obtain ⟨source, factory, hplan, htargets⟩ := hp.eq
  cases hp with
  | delegated _ _ _ _ _ hproduct hsource =>
    obtain ⟨_, d, -, hd, -⟩ := hproduct
    rcases hstep with rfl | hstep
    · rw [PropertyField.step, hsource] at hu
      cases hparams : f.parameters with
      | none =>
        simp only [hparams, Option.elim_none, Source.target?, Option.some.injEq] at hu
        exact hu ▸ Schema.lt_size_of_decl? hd
      | some vs => simp [hparams, Source.target?] at hu
    · obtain rfl := Option.some.inj hstep
      simp [PropertyField.step, Source.target?] at hu
  | built ho ha _ =>
    subst hplan
    have hF : u = f.fieldType := by
      rcases hstep with rfl | hstep
      · exact Option.some.inj (hu.symm.trans (htargets ha).1)
      · obtain rfl := Option.some.inj hstep
        exact Option.some.inj (hu.symm.trans (htargets ha).2)
    obtain ⟨d, hd, -⟩ := Provider.exists_of_owns ho
    exact hF ▸ Schema.lt_size_of_decl? (Schema.decl?_mono h hd)

/-- The plans of an implementation name classes that the session has. -/
theorem Implementation.Realizes.buildsBelow {c : ClassDecl} {i : Implementation}
    (hi : i.Realizes w S cache s t c) (h : S.Extends s.schema) :
    (i.decl S).BuildsBelow s.schema.classes.size := by
  have hplan : ∀ plan ∈ i.plans, ∀ step, step = plan.default ∨ plan.factory = some step →
      ∀ u ∈ step.source.target?, ∃ k, u = .cls k ∧ k < s.schema.classes.size := by
    intro plan hplan step hstep u hu
    obtain ⟨f, hf, hfp⟩ := List.mem_filterMap.mp hplan
    obtain ⟨q, -, k, hk⟩ := hi.properties.mem hf
    have hrealizes := hk.plan
    rw [hfp] at hrealizes
    exact hrealizes.target h hstep hu
  intro ctor hctor p hp step hstep u hu
  rcases List.mem_pair.mp hctor with rfl | rfl
  · obtain rfl := ConstructorBody.plan.inj hp
    obtain ⟨plan, hm, rfl⟩ := List.mem_map.mp hstep
    exact hplan plan hm _ (.inl rfl) u hu
  · obtain rfl := ConstructorBody.plan.inj hp
    obtain ⟨plan, hm, hfactory⟩ := List.mem_filterMap.mp hstep
    exact hplan plan hm _ (.inr hfactory) u hu

/-- The declaration of an implementation does not depend on what the session has added. -/
theorem Implementation.Realizes.decl_eq (hS : S.Closed) (hp : w.provider.Within S)
    {c : ClassDecl} (hc : S.decl? t = some c) (ha : c.isAbstract = true) {i : Implementation}
    (hi : i.Realizes w S cache s t c) {s' : Schema} (h : S.Extends s') : i.decl s' = i.decl S := by
  have ht : S.isAbstract t = true := by simp [Schema.isAbstract, hc, ha]
  have hd : S.Declares i.type := hi.type ▸ Schema.declares_of_decl? hc
  have hf : ∀ f ∈ i.properties, S.Declares f.field.fieldType ∧
      S.Declares f.field.property.type := by
    intro f hf
    obtain ⟨q, hq, k, hk⟩ := hi.properties.mem hf
    exact ⟨(hk.declares hS hp ht hq).1, (hk.declares hS hp ht hq).2.1⟩
  have hfields : i.properties.map (ForgedProperty.fieldDecl s') =
      i.properties.map (ForgedProperty.fieldDecl S) := by
    apply List.map_congr_left
    intro f hm
    simp only [ForgedProperty.fieldDecl, Schema.blank_eq h (hf f hm).1]
  have hproperties : i.properties.map (ForgedProperty.decl s') =
      i.properties.map (ForgedProperty.decl S) := by
    apply List.map_congr_left
    intro f hm
    have hcast : f.field.castType? s' = f.field.castType? S := by
      funext m
      simp only [PropertyField.castType?, Schema.isEnum_eq h (hf f hm).2]
    simp only [ForgedProperty.decl, PropertyField.getter, hcast]
  simp only [decl, defaultPlan, factoryPlan, defaultBase?, factoryBase?,
    Schema.ancestors_eq h hd, Schema.defaultConstructor?_eq h hd,
    Schema.findConstructor?_eq h hd, hfields, hproperties]

end

/-! ## The schema at the beginning -/

section
variable {w : Workshop} {S S' : Schema} {cache : List (Ty × DescriptorId)} {s : Session}
variable {t : Ty} {q : PropertyDecl} {qs : List PropertyDecl} {slot : Nat}

/-- A plan depends on what the schema says of the field type alone. -/
theorem FieldPlan.Realizes.congr {f : PropertyField} {plan : Option FieldPlan}
    (hd : S'.decl? f.fieldType = S.decl? f.fieldType) (hi : info? S' f = info? S f)
    (hc : ofConcrete w f S' = ofConcrete w f S) (hp : FieldPlan.Realizes w S cache s f plan) :
    FieldPlan.Realizes w S' cache s f plan := by
  cases hp with
  | free ho => exact .free (by rwa [Provider.owns, hd])
  | delegated ho ha hl hk hx hp hs =>
    rw [← hi]
    refine .delegated (by rwa [Provider.owns, hd]) (by rwa [Schema.isAbstract, hd]) hl hk hx ?_ hs
    obtain ⟨c, d, hc', hd', hn⟩ := hp
    exact ⟨c, d, hd.trans hc', hd', hn⟩
  | built ho ha hp =>
    exact .built (by rwa [Provider.owns, hd]) (by rwa [Schema.isAbstract, hd]) (hc.trans hp)

variable (h : S.Extends S') (hS : S.Closed) (hp : w.provider.Within S)
include h hS hp

theorem ForgedProperty.Realizes.rebase (hd : S.Declares t) (ht : S.isAbstract t = true)
    (hq : q ∈ S.abstractProperties t) {f : ForgedProperty} :
    f.Realizes w S' cache s t q slot ↔ f.Realizes w S cache s t q slot := by
  have hchoose := PropertyField.choose_eq h hS hp ht hd hq slot
  have hF : ∀ {g}, PropertyField.choose w S t q slot = .ok g →
      S.Declares g.fieldType ∧ S.Declares g.owner := by
    intro g hg
    obtain ⟨F, m, hc, rfl⟩ := PropertyField.choose_eq_ok_iff.mp hg
    exact ⟨hc.declares hS hp ht hq, hd⟩
  constructor
  · intro hf
    have hg := hchoose.symm.trans hf.field
    obtain ⟨hF, ho⟩ := hF hg
    refine ⟨hg, hf.plan.congr (Schema.decl?_eq h hF).symm (FieldPlan.info?_eq h hF).symm
      (FieldPlan.ofConcrete_eq h hF).symm, ?_⟩
    exact (PropertyField.setterShape_eq h hF ho).symm.trans hf.shape
  · intro hf
    obtain ⟨hF, ho⟩ := hF hf.field
    refine ⟨hchoose.trans hf.field, hf.plan.congr (Schema.decl?_eq h hF)
      (FieldPlan.info?_eq h hF) (FieldPlan.ofConcrete_eq h hF), ?_⟩
    exact (PropertyField.setterShape_eq h hF ho).trans hf.shape

theorem ForgedProperty.RealizeAll.rebase (hd : S.Declares t) (ht : S.isAbstract t = true)
    (hqs : ∀ q ∈ qs, q ∈ S.abstractProperties t) {fs : List ForgedProperty} :
    RealizeAll w S' cache s t qs slot fs ↔ RealizeAll w S cache s t qs slot fs := by
  constructor
  · intro hfs
    induction hfs with
    | nil => exact .nil
    | cons hf _ ih =>
      have hq := hqs _ List.mem_cons_self
      exact .cons ((Realizes.rebase h hS hp hd ht hq).mp hf)
        (ih fun q hm => hqs q (List.mem_cons_of_mem _ hm))
  · intro hfs
    induction hfs with
    | nil => exact .nil
    | cons hf _ ih =>
      have hq := hqs _ List.mem_cons_self
      exact .cons ((Realizes.rebase h hS hp hd ht hq).mpr hf)
        (ih fun q hm => hqs q (List.mem_cons_of_mem _ hm))

/-- An implementation of a class that was declared at the beginning is one over every later schema,
and conversely. -/
theorem Implementation.Realizes.rebase {c : ClassDecl} (hc : S.decl? t = some c)
    (ha : c.isAbstract = true) {i : Implementation} :
    i.Realizes w S' cache s t c ↔ i.Realizes w S cache s t c := by
  have hd : S.Declares t := Schema.declares_of_decl? hc
  have ht : S.isAbstract t = true := by simp [Schema.isAbstract, hc, ha]
  have hall : ForgedProperty.RealizeAll w S' cache s t (S'.abstractProperties t)
        c.layout.length i.properties ↔
      ForgedProperty.RealizeAll w S cache s t (S.abstractProperties t) c.layout.length
        i.properties := by
    rw [Schema.abstractProperties_eq h hS hd]
    exact ForgedProperty.RealizeAll.rebase h hS hp hd ht fun _ hq => hq
  exact ⟨fun hi => ⟨hi.type, hi.base, hi.name, hall.mp hi.properties⟩,
    fun hi => ⟨hi.type, hi.base, hi.name, hall.mpr hi.properties⟩⟩

omit hS hp in
theorem Descriptor.concrete_eq (hd : S.Declares t) (l : Listener) :
    Descriptor.concrete S' t l = Descriptor.concrete S t l := by
  simp only [concrete, Schema.publicDefault?_eq h hd, Schema.findConstructor?_eq h hd]

/-- A descriptor of a class that was declared at the beginning serves it over every later schema,
and conversely. -/
theorem Descriptor.Serves.rebase (hd : S.Declares t) {x : Descriptor} :
    x.Serves w S' cache s t ↔ x.Serves w S cache s t := by
  have hdecl := Schema.decl?_eq h hd
  constructor
  · rintro (⟨hc, hm, ha, hx⟩ | ⟨hc, hm, ha, hi, hpr, hr, hx⟩)
    · exact .concrete (hdecl.symm.trans hc) hm ha (hx.trans (concrete_eq h hd _))
    · have hc := hdecl.symm.trans hc
      have hi := (Implementation.Realizes.rebase h hS hp hc ha).mp hi
      exact .implemented hc hm ha hi (by rw [hpr, hi.decl_eq hS hp hc ha h]) hr hx
  · rintro (⟨hc, hm, ha, hx⟩ | ⟨hc, hm, ha, hi, hpr, hr, hx⟩)
    · exact .concrete (hdecl.trans hc) hm ha (hx.trans (concrete_eq h hd _).symm)
    · rw [← hi.decl_eq hS hp hc ha h] at hpr
      exact .implemented (hdecl.trans hc) hm ha
        ((Implementation.Realizes.rebase h hS hp hc ha).mpr hi) hpr hr hx

end

end RecordForge
