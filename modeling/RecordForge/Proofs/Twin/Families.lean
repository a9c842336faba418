import RecordForge.Proofs.Construction.Success
import RecordForge.Proofs.Twin.Worlds

/-!
# Families of implementations

A class with an implementation is made of other classes: those of the fields that its implementation
owns, and so on (`Provider.Builds`). It is *plain* if none of them, and no class above one of them, has
a constructor that takes a carrier (`Provider.Plain`). Then the implementations among them are a family
(`World.family_of_plain`): each has two constructors that differ in one respect only. Where a field is
of an abstract type, the default constructor runs that of the nested implementation, or gives it a
carrier of its own, and the factory constructor hands on the carrier that it is given.
-/

namespace RecordForge

/-! ## What a class is made of -/

/-- Neither a type nor a class above it has a constructor that takes a carrier. -/
def Schema.Carrierless (s : Schema) (t : Ty) : Prop :=
  ∀ u ∈ s.ancestors t, ∀ ctor ∈ s.constructors u, ctor.params ≠ [.carrier]

instance (s : Schema) (t : Ty) : Decidable (s.Carrierless t) :=
  inferInstanceAs (Decidable (∀ u ∈ s.ancestors t, ∀ ctor ∈ s.constructors u,
    ctor.params ≠ [.carrier]))

namespace Provider

/-- The types of which objects are made when one of an abstract class is: the class itself, and the
types of the fields that its implementation and those of nested classes own. -/
inductive Builds (p : Provider) (s : Schema) (t : Ty) : Ty → Prop
  | self : Builds p s t t
  | field {u F : Ty} {q : PropertyDecl} {m : Option ValueMember} (h : Builds p s t u)
      (ha : s.isAbstract u = true) (hq : q ∈ s.abstractProperties u) (hc : p.Chooses s u q F m)
      (ho : p.owns s F = true) : Builds p s t F

/-- No class of which objects are made has a constructor that takes a carrier, and no class above one
of them has. -/
def Plain (p : Provider) (s : Schema) (t : Ty) : Prop := ∀ u, p.Builds s t u → s.Carrierless u

/-- The fields of objects of some types are of these types, too, and none of these types, and no class
above one of them, has a constructor that takes a carrier. -/
def PlainAmong (p : Provider) (s : Schema) (us : List Ty) : Prop :=
  ∀ u ∈ us, (∀ q ∈ s.abstractProperties u, ∀ F ∈ q.type :: p.overrides u q,
    p.owns s F = true → F ∈ us) ∧ s.Carrierless u

instance (p : Provider) (s : Schema) (us : List Ty) : Decidable (p.PlainAmong s us) :=
  inferInstanceAs (Decidable (∀ u ∈ us, (∀ q ∈ s.abstractProperties u,
    ∀ F ∈ q.type :: p.overrides u q, p.owns s F = true → F ∈ us) ∧ s.Carrierless u))

theorem PlainAmong.plain {p : Provider} {s : Schema} {t : Ty} {us : List Ty}
    (h : p.PlainAmong s us) (ht : t ∈ us) : p.Plain s t := by
  intro u hu
  refine (h u ?_).2
  induction hu with
  | self => exact ht
  | field _ _ hq hc ho ih =>
    refine (h _ ih).1 _ hq _ ?_ ho
    cases hc with
    | declared => exact List.mem_cons_self
    | replaced h => exact List.mem_cons_of_mem _ (h ▸ List.mem_append_right _ List.mem_cons_self)

/-- No property that is kept in a field of an abstract type has construction parameters. -/
def Bare (p : Provider) (s : Schema) (t : Ty) : Prop :=
  ∀ u F q m, p.Builds s t u → s.isAbstract u = true → q ∈ s.abstractProperties u →
    p.Chooses s u q F m → p.owns s F = true → s.isAbstract F = true → p.parameters u q = none

end Provider

theorem Schema.Carrierless.findConstructor?_eq {s : Schema} {t : Ty} (h : s.Carrierless t) :
    s.findConstructor? t [.carrier] = none := by
  refine Option.eq_none_iff_forall_ne_some.mpr fun kc hf => ?_
  obtain ⟨ctor, hctor, hparams⟩ := Schema.findConstructor?_isSome.mp (Option.isSome_of_eq_some hf)
  exact h t List.mem_cons_self ctor hctor hparams

/-! ## Balanced implementations -/

/-- A declared type that takes no carriers. -/
def World.Ordinary (w : World) (t : Ty) : Prop := w.schema.Declares t ∧ w.schema.Carrierless t

section
variable (w : World) (bare : Prop) (Member : Descriptor → Prop)

/-- How a field is built by both constructors of an implementation: in the same way, directly, or by a
published descriptor of some family. If the family is bare, there are no construction parameters. -/
inductive FieldPlan.Balanced : FieldPlan → Prop
  | direct {f : PropertyField} {t : Ty} {k : Nat} {args : List Operand} {info : Option InfoStep}
      (ht : w.Ordinary t) :
      Balanced ⟨f.step (.direct t k args), some (f.step (.direct t k args)), info⟩
  | turned {f : PropertyField} {l : LookupId} {lookup : Lookup} {registry : Registry}
      {e : DescriptorId} {x : Descriptor} {info : Option InfoStep}
      (hp : w.Published l lookup registry e x) (halive : registry.isAlive = true) (hx : Member x)
      (hfits : w.schema.isAssignable x.product f.fieldType = true)
      (hbare : bare → f.parameters = none) :
      Balanced ⟨f.step (f.parameters.elim (.direct x.product defaultIndex [])
        fun _ => .lookup l .transient), some (f.step (.lookup l .argument)), info⟩

/-- A descriptor of an implementation whose constructors build the same fields, tell the same values
their properties, and run the same constructor of the abstract class. -/
structure Descriptor.Balanced (x : Descriptor) (plans : List FieldPlan) (infos : List InfoStep)
    (base : Option BaseCall) : Prop where
  factory : x.factoryConstructor = some factoryIndex
  takes : x.factoryTakesCarrier = true
  constructors : w.schema.constructors x.product = [
    { params := [], isPublic := true, body := .plan ⟨false, plans.map FieldPlan.default, infos, base⟩ },
    { params := [.carrier], isPublic := true
      body := .plan ⟨true, plans.filterMap FieldPlan.factory, infos, base⟩ }]
  declares : w.schema.Declares x.product
  base : ∀ b ∈ base, b.passesCarrier = false ∧ w.Ordinary b.target
  fields : ∀ plan ∈ plans, plan.Balanced w bare Member

/-- A family of implementations that turn to each other only. -/
def World.Family : Prop :=
  ∀ x, Member x → ∃ plans infos base, x.Balanced w bare Member plans infos base

end

namespace Descriptor.Balanced

variable {w : World} {bare : Prop} {Member : Descriptor → Prop} {x : Descriptor}
variable {plans : List FieldPlan} {infos : List InfoStep} {base : Option BaseCall}

/-- The constructor without arguments. -/
theorem default_plan (hx : x.Balanced w bare Member plans infos base) :
    ∃ d, w.schema.constructorFor x.product defaultIndex 0 = .ok d ∧
      d.body = .plan ⟨false, plans.map FieldPlan.default, infos, base⟩ :=
  ⟨_, Schema.constructorFor_eq_ok_iff.mpr ⟨by rw [hx.constructors]; rfl, rfl⟩, rfl⟩

/-- The constructor that takes a carrier. -/
theorem factory_plan (hx : x.Balanced w bare Member plans infos base) :
    ∃ d, w.schema.constructorFor x.product factoryIndex 1 = .ok d ∧
      d.body = .plan ⟨true, plans.filterMap FieldPlan.factory, infos, base⟩ :=
  ⟨_, Schema.constructorFor_eq_ok_iff.mpr ⟨by rw [hx.constructors]; rfl, rfl⟩, rfl⟩

end Descriptor.Balanced

/-! ## What is published in a scene -/

namespace World

variable {w : World} {r : RegistryId} {registry : Registry} {t : Ty} {h₀ : Heap} {f : PropertyField}
variable {plan : FieldPlan} {step : BuildStep}

/-- A lookup for a type that its registry knows asks for a published descriptor. -/
theorem exists_published (hr : w.registries[r]? = some registry) {F : Ty} {l : LookupId}
    {e : DescriptorId} {x : Descriptor}
    (hl : (w.lookups[l]?).map Lookup.question = some (F, r))
    (hk : w.session.known? (w.quiet.entries r registry) F = some e)
    (hx : w.descriptors[e]? = some x) :
    registry.cached? F = some e ∧ ∃ lookup, w.Published l lookup registry e x := by
  obtain ⟨lookup, hlookup, hq⟩ := Option.map_eq_some_iff.mp hl
  obtain ⟨rfl, rfl⟩ := Prod.mk.inj hq
  have hcached : registry.cached? lookup.fieldType = some e :=
    (Scene.known?_of_free (S := w.quiet) rfl _).symm.trans hk
  exact ⟨hcached, lookup, hlookup, hr, hcached, hx⟩

/-- A field turns to descriptors that its registry has published. -/
theorem published_of_realizes (hr : w.registries[r]? = some registry)
    (hplan : FieldPlan.Realizes (registry.workshop r h₀) w.schema (w.quiet.entries r registry)
      w.session f (some plan)) (hstep : step = plan.default ∨ plan.factory = some step) :
    w.Serves step := by
  intro l source hsource
  cases hplan with
  | @delegated l' e x source' ho ha hl hk hx _ hs =>
    obtain ⟨-, lookup, hpublished⟩ := exists_published hr hl hk hx
    have hsame : l = l' := by
      rcases hstep with rfl | hfactory
      · have hsource : source' = .lookup l source := hsource
        rw [hs] at hsource
        cases hf : f.parameters with
        | none => rw [hf] at hsource; cases hsource
        | some vs => rw [hf] at hsource; exact (Source.lookup.inj hsource).1.symm
      · obtain rfl := Option.some.inj hfactory
        exact (Source.lookup.inj hsource).1.symm
    exact ⟨lookup, registry, e, x, hsame ▸ hpublished⟩
  | built ho ha hconcrete =>
    obtain ⟨source', rfl, hsource'⟩ := FieldPlan.ofConcrete_eq_ok_iff.mp hconcrete
    have htargets := FieldPlan.target?_sources h₀ w.schema f.fieldType f.parameters
    have htarget : step.source.target? = some f.fieldType := by
      rcases hstep with rfl | hfactory
      · rcases hsource' with hsome | ⟨-, k, -, rfl⟩
        · exact htargets.1 _ hsome
        · rfl
      · obtain ⟨factory, hsome, rfl⟩ := Option.map_eq_some_iff.mp hfactory
        exact htargets.2 factory hsome
    rw [hsource] at htarget
    cases htarget

/-- In a world that comes about from nothing, plans turn to published descriptors. -/
theorem furnished (h : w.quiet.Sound) (hs : w.quiet.Sorted) : w.Furnished where
  found hl hd := h.found hl hd
  planned {c d} hd ctor hctor p hp step hstep := by
    obtain ⟨r, registry, hr, hmakes⟩ := (hs c d hd).resolve_left fun hwritten =>
      hwritten.plans ctor hctor p hp
    obtain ⟨b, c₀, e, i, h₀, -, -, -, -, -, hi, rfl, -⟩ := hmakes.spec (h.registries hr) hd
    have hfield : ∀ plan ∈ i.plans, ∃ f, FieldPlan.Realizes (registry.workshop r h₀) w.schema
        (w.quiet.entries r registry) w.session f (some plan) := fun plan hm => by
      obtain ⟨f, hf, hfp⟩ := List.mem_filterMap.mp hm
      obtain ⟨q, -, k, hk⟩ := hi.properties.mem hf
      exact ⟨f.field, hfp ▸ hk.plan⟩
    rcases List.mem_pair.mp hctor with rfl | rfl
    · obtain rfl := ConstructorBody.plan.inj hp
      obtain ⟨plan, hm, rfl⟩ := List.mem_map.mp hstep
      obtain ⟨f, hplan⟩ := hfield plan hm
      exact published_of_realizes hr hplan (.inl rfl)
    · obtain rfl := ConstructorBody.plan.inj hp
      obtain ⟨plan, hm, hfactory⟩ := List.mem_filterMap.mp hstep
      obtain ⟨f, hplan⟩ := hfield plan hm
      exact published_of_realizes hr hplan (.inr hfactory)

/-! ## Plain types -/

/-- The published descriptors of the abstract classes among those of which objects are made. -/
def Kin (w : World) (registry : Registry) (t : Ty) (x : Descriptor) : Prop :=
  ∃ F e, registry.provider.Builds w.schema t F ∧ w.schema.isAbstract F = true ∧
    registry.cached? F = some e ∧ w.descriptors[e]? = some x

/-- A field of an abstract type has a published descriptor. -/
theorem exists_kin (h : w.quiet.Sound) (hr : w.registries[r]? = some registry) {u F : Ty}
    {q : PropertyDecl} {m : Option ValueMember} {e : DescriptorId} {x : Descriptor}
    (hu : registry.provider.Builds w.schema t u) (ha : w.schema.isAbstract u = true)
    (hq : q ∈ w.schema.abstractProperties u) (hc : registry.provider.Chooses w.schema u q F m)
    (ho : registry.provider.owns w.schema F = true) (haF : w.schema.isAbstract F = true)
    (hk : registry.cached? F = some e) (hx : w.descriptors[e]? = some x) :
    w.Kin registry t x ∧ w.schema.isAssignable x.product F = true := by
  obtain ⟨c, i, h₀, -, hd, -, hi, hp, -⟩ :=
    (h.registries (S := w.quiet) hr).exists_implementation hk hx haF
  refine ⟨⟨F, e, .field hu ha hq hc ho, haF, hk, hx⟩, ?_⟩
  rw [← hi.type]
  exact Implementation.isAssignable (by rw [hi.type]; exact Option.isSome_of_eq_some hd) hp

/-- A field of a plain class is built in a balanced way. -/
theorem balanced_field (h : w.quiet.Sound) (hr : w.registries[r]? = some registry)
    (halive : registry.isAlive = true) (hplain : registry.provider.Plain w.schema t) {u : Ty}
    (hu : registry.provider.Builds w.schema t u) (ha : w.schema.isAbstract u = true)
    {g : ForgedProperty} {q : PropertyDecl} (hq : q ∈ w.schema.abstractProperties u) {slot : Nat}
    (hg : g.Realizes (registry.workshop r h₀) w.schema (w.quiet.entries r registry) w.session u q slot)
    (hplan : g.plan = some plan) :
    plan.Balanced w (registry.provider.Bare w.schema t) (w.Kin registry t) := by
  obtain ⟨F, m, hc, he⟩ := hg.eq
  have hrealizes := hg.plan
  have hF : g.field.fieldType = F := by rw [he]
  have hparameters : g.field.parameters = registry.provider.parameters u q := by rw [he]; rfl
  generalize g.field = f at hrealizes hF hparameters
  rw [hplan] at hrealizes
  subst hF
  cases hrealizes with
  | @delegated l e x source ho haF hl hk hx _ hs =>
    obtain ⟨hcached, lookup, hpublished⟩ := exists_published hr hl hk hx
    obtain ⟨hkin, hfits⟩ := exists_kin h hr hu ha hq hc ho haF hcached hx
    subst hs
    exact .turned hpublished halive hkin hfits fun hbare =>
      hparameters.trans (hbare u _ q m hu ha hq hc ho haF)
  | built ho haF hconcrete =>
    have hbuilds : registry.provider.Builds w.schema t f.fieldType := .field hu ha hq hc ho
    obtain ⟨d, hd, -⟩ := Provider.exists_of_owns ho
    have hordinary : w.Ordinary f.fieldType :=
      ⟨Schema.declares_of_decl? hd, hplain _ hbuilds⟩
    obtain ⟨source, rfl, hsource⟩ := FieldPlan.ofConcrete_eq_ok_iff.mp hconcrete
    -- without a constructor that takes a carrier, both constructors have the same source
    rw [FieldPlan.sources, hordinary.2.findConstructor?_eq] at hsource ⊢
    cases hmatch : f.parameters.bind (FieldPlan.matching? (registry.workshop r h₀).heap w.schema
        f.fieldType) with
    | some match' =>
      rw [hmatch] at hsource
      obtain rfl := Option.some.inj (hsource.resolve_right fun hnone => Option.some_ne_none _ hnone.1)
      exact .direct hordinary
    | none =>
      rw [hmatch] at hsource
      obtain ⟨-, k, hk, rfl⟩ := hsource.resolve_left fun hsome => Option.not_mem_none _ hsome
      obtain ⟨ctor, hfind⟩ := Schema.publicDefault?_eq_some hk
      rw [show w.schema.defaultConstructor? f.fieldType = some (k, ctor) from hfind]
      exact .direct hordinary

/-- **The implementations of which a plain class is made are a family.** -/
theorem family_of_plain (h : w.quiet.Sound) (hr : w.registries[r]? = some registry)
    (halive : registry.isAlive = true) (hplain : registry.provider.Plain w.schema t) :
    w.Family (registry.provider.Bare w.schema t) (w.Kin registry t) := by
  rintro x ⟨F, e, hF, ha, hk, hx⟩
  obtain ⟨c, i, h₀, report, hd, -, hi, hp, hdescriptor⟩ :=
    (h.registries (S := w.quiet) hr).exists_implementation hk hx ha
  have hordinary : w.Ordinary F := ⟨Schema.declares_of_decl? hd, hplain F hF⟩
  have hbase : i.factoryBase? w.schema = i.defaultBase? w.schema := by
    rw [Implementation.factoryBase?, hi.type, hordinary.2.findConstructor?_eq]
    rfl
  refine ⟨i.plans, i.infos, i.defaultBase? w.schema, by rw [hdescriptor]; rfl,
    by rw [hdescriptor]; rfl, ?_, Schema.declares_of_decl? hp, fun b hb => ?_, fun plan hm => ?_⟩
  · rw [Schema.constructors, show w.schema.decl? x.product = some (i.decl w.schema) from hp]
    show [_, _] = _
    rw [Implementation.defaultPlan, Implementation.factoryPlan, hbase]
  · obtain ⟨kc, -, rfl⟩ := Option.map_eq_some_iff.mp hb
    exact ⟨rfl, hi.type ▸ hordinary⟩
  · obtain ⟨g, hg, hplan⟩ := List.mem_filterMap.mp hm
    obtain ⟨q, hq, k, hrealizes⟩ := hi.properties.mem hg
    exact balanced_field h hr halive hplain hF ha hq hrealizes hplan

end World

end RecordForge
