import RecordForge.Proofs.Run.Growth
import RecordForge.Proofs.Scene.Answers

/-!
# Nested descriptors

The plans of an implementation turn to the descriptors of its field types. Those are published
before its own descriptor is: at every moment, also between two inserts of one commit, what is
published is closed under nesting (`nested_published`).
-/

namespace RecordForge

variable {r : RegistryId} {registry : Registry} {t : Ty} {d : DescriptorId} {x : Descriptor}

/-! ## What is published -/

/-- What a class needs is there before the class, also among the first of some entries. -/
theorem Provider.Founded.mem_left {p : Provider} {S : Schema} {entries more : List (Ty × DescriptorId)}
    (h : p.Founded S (entries ++ more)) (hm : (t, d) ∈ entries) {F : Ty} (hF : p.Needs S t F) :
    F ∈ entries.map Prod.fst := by
  obtain ⟨before, after, rfl⟩ := List.append_of_mem hm
  have hbefore := h.of_append before t d after rfl F hF
  rw [List.map_append]
  exact List.mem_append_left _ hbefore

/-- The implementation of a class can stand where the class is expected. -/
theorem Implementation.isAssignable {S s : Schema} {i : Implementation} {product : Ty}
    (hc : (S.decl? i.type).isSome = true) (hp : s.decl? product = some (i.decl S)) :
    s.isAssignable product i.type = true := by
  obtain ⟨c₀, hc₀⟩ := Option.isSome_iff_exists.mp hc
  obtain ⟨c, htype, -⟩ := Schema.lt_size_of_decl? hc₀
  have hbase : c ∈ (i.decl S).bases :=
    List.mem_filterMap.mpr ⟨.cls c, htype ▸ List.mem_cons_self, rfl⟩
  have hmem : Ty.cls c ∈ s.bases product := by
    rw [Schema.bases, hp]
    exact List.mem_map_of_mem hbase
  rw [Schema.isAssignable, Schema.isSubclass, htype, if_neg (by simp)]
  simp [hmem]

namespace Scene

variable {S : Scene}

namespace SoundAt

variable (h : S.SoundAt r registry)
include h

/-- What a published class needs is published. -/
theorem exists_cached (hc : registry.cached? t = some d) {F : Ty}
    (hF : registry.provider.Needs S.world.schema t F) : ∃ d', registry.cached? F = some d' := by
  have hfounded := h.tracks.session.founded
  rw [show S.world.session.staged = [] from rfl, List.append_nil] at hfounded
  have hfounded : registry.provider.Founded S.world.schema (S.entries r registry) := hfounded
  rw [entries] at hfounded
  obtain ⟨e, he, rfl⟩ := List.mem_map.mp (hfounded.mem_left (h.cached?_eq_some_iff.mp hc) hF)
  exact ⟨e.2, h.cached?_eq_some_iff.mpr he⟩

omit h in
/-- What is published is known by its published descriptor. -/
theorem known_of_cached (hc : registry.cached? t = some d) :
    S.world.session.known? (S.entries r registry) t = some d :=
  Option.or_eq_some_iff.mpr (.inl (List.lookup_append.trans (Option.or_eq_some_iff.mpr (.inl hc))))

/-- A published descriptor serves its type. -/
theorem serves_cached (hc : registry.cached? t = some d)
    (hx : S.world.descriptors[d]? = some x) :
    ∃ h₀, h₀.Grows S.world.heap ∧ x.Serves (registry.workshop r h₀) S.world.schema
      (S.entries r registry) S.world.session t := by
  obtain ⟨x', h₀, hx', hh₀, hserves⟩ :=
    h.serves (List.mem_append_left _ (h.cached?_eq_some_iff.mp hc))
  obtain rfl := Option.some.inj (hx'.symm.trans hx)
  exact ⟨h₀, hh₀, hserves⟩

/-- The published descriptor of an abstract class, with its implementation. -/
theorem exists_implementation (hc : registry.cached? t = some d)
    (hx : S.world.descriptors[d]? = some x) (ha : S.world.schema.isAbstract t = true) :
    ∃ (c : ClassDecl) (i : Implementation) (h₀ : Heap) (report : Report),
      S.world.schema.decl? t = some c ∧ c.isAbstract = true ∧
      i.Realizes (registry.workshop r h₀) S.world.schema (S.entries r registry) S.world.session t c ∧
      S.world.schema.decl? x.product = some (i.decl S.world.schema) ∧
      x = i.descriptor (registry.workshop r h₀) report x.product := by
  obtain ⟨h₀, -, hserves⟩ := h.serves_cached hc hx
  cases hserves with
  | concrete hd _ hcon => simp [Schema.isAbstract, hd, hcon] at ha
  | implemented hd _ habs hi hp _ hx => exact ⟨_, _, h₀, _, hd, habs, hi, hp, hx⟩

end SoundAt

/-! ## Resolving lookups -/

/-- A lookup for a published type gives its descriptor, and changes nothing but the lookup. -/
theorem Sound.resolve (h : S.Sound) (hr : S.world.registries[r]? = some registry)
    (hc : registry.cached? t = some d) (hx : S.world.descriptors[d]? = some x) {l : LookupId}
    (hl : (S.world.lookups[l]?).map Lookup.question = some (t, r)) (halive : registry.isAlive = true) :
    ∃ lookups, S.world.resolve l = .ok (x, { S.world with lookups }) := by
  obtain ⟨lookup, hlookup, hq⟩ := Option.map_eq_some_iff.mp hl
  obtain ⟨rfl, rfl⟩ := Prod.mk.inj hq
  cases hfound : lookup.found with
  | some d' =>
    obtain ⟨registry', hr', hc'⟩ := h.found hlookup hfound
    obtain rfl := Option.some.inj (hr.symm.trans hr')
    obtain rfl := Option.some.inj (hc.symm.trans hc')
    refine ⟨S.world.lookups, World.resolve_eq_ok_iff.mpr ⟨lookup, hlookup, .inl ⟨?_, rfl⟩⟩⟩
    rw [hfound]
    exact hx
  | none =>
    refine ⟨_, World.resolve_eq_ok_iff.mpr ⟨lookup, hlookup, .inr ⟨by rw [hfound]; rfl, registry, d,
      S.world, hr, halive, ?_, hx, rfl⟩⟩⟩
    rw [World.descriptorFor, hc]

/-- A lookup for a published type gives no other descriptor. -/
theorem Sound.resolve_eq (h : S.Sound) (hr : S.world.registries[r]? = some registry)
    (hc : registry.cached? t = some d) (hx : S.world.descriptors[d]? = some x) {l : LookupId}
    (hl : (S.world.lookups[l]?).map Lookup.question = some (t, r)) {x' : Descriptor} {w : World}
    (hresolve : S.world.resolve l = .ok (x', w)) : x' = x ∧ ∃ lookups, w = { S.world with lookups } := by
  obtain ⟨lookup, hlookup, hq⟩ := Option.map_eq_some_iff.mp hl
  obtain ⟨rfl, rfl⟩ := Prod.mk.inj hq
  obtain ⟨lookup', hlookup', hcase⟩ := World.resolve_eq_ok_iff.mp hresolve
  obtain rfl := Option.some.inj (hlookup.symm.trans hlookup')
  rcases hcase with ⟨hfound, rfl⟩ | ⟨-, registry', e, w₁, hr', -, hd, hx', rfl⟩
  · obtain ⟨d', hd', hx'⟩ := Option.bind_eq_some_iff.mp hfound
    obtain ⟨registry', hr', hc'⟩ := h.found hlookup hd'
    obtain rfl := Option.some.inj (hr.symm.trans hr')
    obtain rfl := Option.some.inj (hc.symm.trans hc')
    exact ⟨Option.some.inj (hx'.symm.trans hx), _, rfl⟩
  · obtain rfl := Option.some.inj (hr.symm.trans hr')
    rw [World.descriptorFor, hc] at hd
    obtain ⟨rfl, rfl⟩ := Prod.mk.inj (Except.ok.inj hd)
    exact ⟨Option.some.inj (hx'.symm.trans hx), _, rfl⟩

/-- Neither does it later. -/
theorem Sound.resolve_later (h : S.Sound) (hr : S.world.registries[r]? = some registry)
    (hc : registry.cached? t = some d) (hx : S.world.descriptors[d]? = some x) {l : LookupId}
    (hl : (S.world.lookups[l]?).map Lookup.question = some (t, r)) {told : List Served} {S' : Scene}
    (hruns : Runs S told S') {x' : Descriptor} {w : World}
    (hresolve : S'.world.resolve l = .ok (x', w)) : x' = x := by
  have he := hruns.evolves h
  obtain ⟨registry', hr', hkeeps⟩ := he.registries hr
  exact ((hruns.sound h).resolve_eq hr' (hkeeps.cached hc) (he.world.descriptors hx)
    (he.world.lookups hl) hresolve).1

/-! ## Main result -/

/-- How an implementation builds a field whose type is abstract: both constructors turn to the
published descriptor of that type. -/
structure Delegates (S : Scene) (r : RegistryId) (registry : Registry) (f : PropertyField)
    (plan : FieldPlan) (l : LookupId) (x : Descriptor) : Prop where
  published : ∃ d, registry.cached? f.fieldType = some d ∧ S.world.descriptors[d]? = some x
  type : x.type = f.fieldType
  synthesized : x.isSynthesized = true
  /-- Without construction parameters the default constructor runs that of the implementation. -/
  default : plan.default = f.step (f.parameters.elim (.direct x.product defaultIndex [])
    fun _ => .lookup l .transient)
  factory : plan.factory = some (f.step (.lookup l .argument))
  /-- No search is needed to resolve the lookup. -/
  resolves : registry.isAlive = true → ∃ lookups, S.world.resolve l = .ok (x, { S.world with lookups })
  /-- Whichever constructor builds the field, its value is of the one class, unless a creation
  through the descriptor fails. -/
  values : registry.isAlive = true → ∀ step, step = plan.default ∨ plan.factory = some step →
    ∀ depth cs v cs' w', step.build (Calls.nested depth) cs S.world = (.ok (v, cs'), w') →
      (∃ o, v = .object o ∧ w'.classOf o = x.product) ∨
        v = .null ∧ ∃ carrier w₁ w₂ creation,
          x.createWith (Calls.nested depth) carrier w₁ = (.ok creation, w₂) ∧
            creation.object? = none

/-- A field whose type is abstract and mapped delegates to a published descriptor. -/
theorem Sound.delegates (h : S.Sound) (hr : S.world.registries[r]? = some registry)
    (hc : registry.cached? t = some d) {f : PropertyField}
    {plan : Option FieldPlan} {h₀ : Heap}
    (hplan : FieldPlan.Realizes (registry.workshop r h₀) S.world.schema (S.entries r registry)
      S.world.session f plan) (howns : registry.provider.owns S.world.schema f.fieldType = true)
    (ha : S.world.schema.isAbstract f.fieldType = true)
    (hneeds : registry.provider.Needs S.world.schema t f.fieldType) :
    ∃ p l x', plan = some p ∧ S.Delegates r registry f p l x' := by
  have hat := h.registries hr
  cases hplan with
  | free ho =>
    have ho : registry.provider.owns S.world.schema f.fieldType = false := ho
    rw [howns] at ho
    cases ho
  | built _ ha' => rw [ha] at ha'; cases ha'
  | @delegated l d' x' source _ _ hl hd hx' hproduct hsource =>
    obtain ⟨d'', hc'⟩ := hat.exists_cached hc hneeds
    obtain rfl := Option.some.inj (hd.symm.trans (Scene.SoundAt.known_of_cached hc'))
    obtain ⟨c, i, h₁, _, hdecl, habs, hi, hp, hdesc⟩ := hat.exists_implementation hc' hx' ha
    obtain ⟨k, hk, -⟩ := Schema.lt_size_of_decl? hp
    have hdeclares := Schema.declares_of_decl? hp
    have hfits : S.world.schema.isAssignable x'.product f.fieldType = true := by
      rw [← hi.type]
      exact Implementation.isAssignable (by rw [hi.type, hdecl]; rfl) hp
    have hresolves := h.resolve hr hc' hx' hl
    refine ⟨_, l, x', rfl, ⟨_, hc', hx'⟩, ?_, ?_, ?_, rfl, hresolves, ?_⟩
    · rw [hdesc]
      exact hi.type
    · rw [hdesc]
      rfl
    · rw [hsource]
    · intro halive step hstep depth cs v cs' w' hbuild
      obtain ⟨lookups, hresolve⟩ := hresolves halive
      have hlookup : ∀ carrier, step = f.step (.lookup l carrier) →
          (∃ o, v = .object o ∧ w'.classOf o = x'.product) ∨
            v = .null ∧ ∃ carrier w₁ w₂ creation,
              x'.createWith (Calls.nested depth) carrier w₁ = (.ok creation, w₂) ∧
                creation.object? = none := by
        intro carrier hs
        have hsource : step.source = .lookup l carrier := by rw [hs]; rfl
        rcases Run.build_lookup hsource hresolve hk hdeclares (by rw [hs]; exact hfits) hbuild with
          hobject | ⟨hv, carrier, w₁, w₂, creation, -, hcreate, -, hnone⟩
        · exact .inl hobject
        · exact .inr ⟨hv, carrier, w₁, w₂, creation, hcreate, hnone⟩
      rcases hstep with hs | hs
      · rw [hsource] at hs
        cases hparameters : f.parameters with
        | some vs =>
          rw [hparameters] at hs
          exact hlookup .transient hs
        | none =>
          rw [hparameters] at hs
          have hsource : step.source = .direct x'.product defaultIndex [] := by rw [hs]; rfl
          exact .inl (Run.build_direct hsource hbuild)
      · exact hlookup .argument (Option.some.inj hs).symm

/-- The properties of an implementation are those that it is to have. -/
theorem map_property {w : Workshop} {s : Session} {S : Schema} {cache : List (Ty × DescriptorId)}
    {qs : List PropertyDecl} {slot : Nat} {fs : List ForgedProperty}
    (h : ForgedProperty.RealizeAll w S cache s t qs slot fs) :
    fs.map (fun f => f.field.property) = qs := by
  induction h with
  | nil => rfl
  | cons hf _ ih =>
    obtain ⟨F, m, -, he⟩ := hf.eq
    rw [List.map_cons, ih, he]

/-- **What is published is closed under nesting, at every moment.** For each property of a published
implementation whose field type is an abstract mapped class, that class has a published descriptor,
to which both constructors turn. -/
theorem nested_published {S : Scene} {told : List Served} (hruns : Runs {} told S) {r : RegistryId}
    {registry : Registry} (hr : S.world.registries[r]? = some registry) {t : Ty} {d : DescriptorId}
    {x : Descriptor} (hc : registry.cached? t = some d) (hx : S.world.descriptors[d]? = some x)
    (hs : x.isSynthesized = true) :
    ∃ i : Implementation, S.world.schema.decl? x.product = some (i.decl S.world.schema) ∧
      i.type = t ∧
      i.properties.map (fun f => f.field.property) = S.world.schema.abstractProperties t ∧
      ∀ f ∈ i.properties,
        registry.provider.Chooses S.world.schema t f.field.property f.field.fieldType
          f.field.member ∧
        ∀ c, S.world.schema.decl? f.field.fieldType = some c → c.isAbstract = true →
          registry.provider.isMapped f.field.fieldType c = true →
          ∃ plan l x', f.plan = some plan ∧ S.Delegates r registry f.field plan l x' := by
  have h := sound_of_runs hruns
  have hat := h.registries hr
  have ha : S.world.schema.isAbstract t = true := by
    obtain ⟨h₀, -, hserves⟩ := hat.serves_cached hc hx
    cases hserves with
    | concrete _ _ _ hx => rw [hx] at hs; cases hs
    | implemented hd _ habs => simp [Schema.isAbstract, hd, habs]
  obtain ⟨c₀, i, h₀, -, -, -, hi, hp, -⟩ := hat.exists_implementation hc hx ha
  refine ⟨i, hp, hi.type, map_property hi.properties, fun f hf => ?_⟩
  obtain ⟨q, hq, k, hf⟩ := hi.properties.mem hf
  obtain ⟨F, m, hchooses, he⟩ := hf.eq
  have hchosen : registry.provider.Chooses S.world.schema t f.field.property f.field.fieldType
      f.field.member := by
    rw [he]
    exact hchooses
  refine ⟨hchosen, fun c hd habs hm => ?_⟩
  have hreference : c.isValueType = false := by
    obtain ⟨n, hn, -⟩ := Schema.lt_size_of_decl? hd
    rw [hn] at hd
    exact h.proper.references hd habs
  have howns : registry.provider.owns S.world.schema f.field.fieldType = true := by
    rw [Provider.owns, hd]
    simp [hreference, hm]
  have habstract : S.world.schema.isAbstract f.field.fieldType = true := by
    simp [Schema.isAbstract, hd, habs]
  have hproperty : f.field.property ∈ S.world.schema.abstractProperties t := by
    rw [he]
    exact hq
  exact h.delegates hr hc hf.plan howns habstract
    ⟨ha, _, hproperty, _, hchosen, howns, habstract⟩

/-- The session in which a request for `Grove.Wood` is answered. -/
def woodSession : Session :=
  match World.forestRegistry.find (World.forestRegistry.workshop 0 grove.world.heap)
    (grove.world.schema.classes.size + 1) [] (.cls 3) grove.world.session with
  | .ok (_, s) => s
  | .error _ => grove.world.session

/-- The scene in which `Grove.Tree` and `Grove.Copse` are published, and `Grove.Wood` is not yet. -/
def copse : Scene :=
  grove.turn 0 ((grove.world.take World.forestRegistry woodSession).commit 0 [(.cls 1, 0), (.cls 2, 1)])
    (some ⟨.cls 3, [(.cls 3, 2)], false⟩)

theorem copse_runs : Runs {} [] copse := by
  have hbegin : Step grove none (grove.turn 0 (grove.world.take World.forestRegistry woodSession)
      (some ⟨.cls 3, woodSession.staged, false⟩)) := .begin (d := 2) rfl rfl rfl rfl
  have hstaged : woodSession.staged = [(.cls 1, 0), (.cls 2, 1)] ++ [(.cls 3, 2)] := rfl
  rw [hstaged] at hbegin
  exact (grove_runs.tail hbegin).trans commit_runs

/-- In the middle of the commit for `Grove.Wood`, the implementation of `Grove.Copse` turns to the
published descriptor of `Grove.Tree`. -/
theorem nested_published_copse :
    ∃ (registry : Registry) (x : Descriptor) (i : Implementation),
      copse.world.registries[0]? = some registry ∧ registry.cached? (.cls 3) = none ∧
      copse.world.schema.decl? x.product = some (i.decl copse.world.schema) ∧
      ∃ f ∈ i.properties, f.field.fieldType = .cls 1 ∧
        ∃ plan l x', copse.Delegates 0 registry f.field plan l x' := by
  obtain ⟨registry, hr⟩ : ∃ registry, copse.world.registries[0]? = some registry := ⟨_, rfl⟩
  obtain ⟨x, hx⟩ : ∃ x, copse.world.descriptors[1]? = some x := ⟨_, rfl⟩
  have hregistry : registry.provider = Provider.attributes ∧ registry.cached? (.cls 2) = some 1 ∧
      registry.cached? (.cls 3) = none := by
    have hall : copse.world.registries[0]?.map
        (fun a => (a.provider, a.cached? (.cls 2), a.cached? (.cls 3))) =
          some (Provider.attributes, some 1, none) := rfl
    rw [hr] at hall
    simpa using hall
  obtain ⟨hprovider, hc, hmissing⟩ := hregistry
  have hs : x.isSynthesized = true := by
    have hall : copse.world.descriptors[1]?.map Descriptor.isSynthesized = some true := rfl
    rw [hx] at hall
    exact Option.some.inj hall
  obtain ⟨i, hp, -, hproperties, hnested⟩ := nested_published copse_runs hr hc hx hs
  have hproperties : i.properties.map (fun f => f.field.property) =
    [World.forestProperty (.cls 1)] := hproperties
  obtain ⟨f, hf, hq⟩ : ∃ f ∈ i.properties, f.field.property = World.forestProperty (.cls 1) :=
    List.mem_map.mp (hproperties ▸ List.mem_singleton.mpr rfl)
  obtain ⟨hchooses, hall⟩ := hnested f hf
  rw [hq, hprovider] at hchooses
  have hdeclared : Provider.attributes.Chooses copse.world.schema (.cls 2)
      (World.forestProperty (.cls 1)) (.cls 1) none := .declared rfl
  have hF := (hchooses.unique hdeclared).1
  obtain ⟨c, hd, habs, hm⟩ : ∃ c, copse.world.schema.decl? (.cls 1) = some c ∧ c.isAbstract = true ∧
      Provider.attributes.isMapped (.cls 1) c = true := ⟨_, rfl, rfl, rfl⟩
  obtain ⟨plan, l, x', -, hdelegates⟩ :=
    hall c (hF ▸ hd) habs (by rw [hF, hprovider]; exact hm)
  exact ⟨registry, x, i, hr, hmissing, hp, f, hf, hF, plan, l, x', hdelegates⟩

end Scene

end RecordForge
