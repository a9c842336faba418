import RecordForge.Proofs.Layout.Slots

/-!
# The constructors that are run from outside

A class can keep constructors to itself. Those that a descriptor runs by itself are public, and so is
the one that a step falls back to. But construction parameters are matched against all constructors, a
constructor that takes a carrier is taken whether it is public or not, and so is the one that wraps a
value. `Scene.constructors_exposed` says for each step which constructor it runs, and exactly when that
one is public.
-/

namespace RecordForge

variable {S : Schema} {h : Heap} {F t : Ty} {params : Option (List Value)} {k : Nat}
variable {c : ConstructorDecl}

/-! ## Choosing constructors -/

/-- The constructor that is taken for the value of a field without asking whether it is public: one
that takes values of the types of the construction parameters, or else one that takes a carrier. -/
def Schema.preferred? (S : Schema) (h : Heap) (F : Ty) (params : Option (List Value)) :
    Option (Nat × ConstructorDecl) :=
  (params.bind fun vs => S.findConstructor? F (vs.map (Schema.typeOf h))).or
    (S.findConstructor? F [.carrier])

/-- A source runs a constructor of a class. -/
def Source.Runs (S : Schema) (source : Source) (t : Ty) (c : ConstructorDecl) : Prop :=
  match source with
  | .lookup .. => False
  | .direct target k _ | .withCarrier target k _ => target = t ∧ (S.constructors t)[k]? = some c

theorem Schema.publicDefault?_eq_some_iff :
    S.publicDefault? t = some k ↔ ∃ c, S.defaultConstructor? t = some (k, c) ∧ c.isPublic = true := by
  rw [publicDefault?, Option.map_eq_some_iff]
  constructor
  · rintro ⟨⟨k', c⟩, hc, rfl⟩
    exact ⟨c, Option.filter_eq_some_iff.mp hc⟩
  · rintro ⟨c, hc⟩
    exact ⟨(k, c), Option.filter_eq_some_iff.mpr hc, rfl⟩

theorem Schema.public_of_publicDefault? (hk : S.publicDefault? t = some k) :
    ∃ c, (S.constructors t)[k]? = some c ∧ c.isPublic = true := by
  obtain ⟨c, hc, hpublic⟩ := publicDefault?_eq_some_iff.mp hk
  exact ⟨c, (findConstructor?_eq_some hc).1, hpublic⟩

/-- The constructors of a descriptor that needs no implementation are public. -/
theorem Descriptor.public_of_concrete {l : Listener}
    (hk : (concrete S t l).defaultConstructor = some k ∨ (concrete S t l).factoryConstructor = some k) :
    ∃ c, (S.constructors t)[k]? = some c ∧ c.isPublic = true := by
  rcases hk with hk | hk
  · exact Schema.public_of_publicDefault? hk
  · rcases Option.or_eq_some_iff.mp hk with hk | ⟨-, hk⟩
    · obtain ⟨⟨k', c⟩, hc, rfl⟩ := Option.map_eq_some_iff.mp hk
      obtain ⟨hc, hpublic⟩ := Option.filter_eq_some_iff.mp hc
      exact ⟨c, (Schema.findConstructor?_eq_some hc).1, hpublic⟩
    · exact Schema.public_of_publicDefault? hk

namespace FieldPlan

/-- What is preferred is run by the factory constructor, and by the default constructor if there are
parameters. -/
theorem sources_of_preferred (hc : S.preferred? h F params = some (k, c)) :
    (∃ factory, (sources h S F params).2 = some factory ∧ factory.Runs S F c) ∧
      (params = none ∧ (sources h S F params).1 = none ∨
        params ≠ none ∧ ∃ source, (sources h S F params).1 = some source ∧ source.Runs S F c) := by
  -- whichever way it is found, the visibility of the constructor is not asked for
  have hruns : (S.constructors F)[k]? = some c := by
    rcases Option.or_eq_some_iff.mp hc with hc | ⟨-, hc⟩
    · obtain ⟨vs, -, hc⟩ := Option.bind_eq_some_iff.mp hc
      exact (Schema.findConstructor?_eq_some hc).1
    · exact (Schema.findConstructor?_eq_some hc).1
  cases params with
  | none =>
    have hc : S.findConstructor? F [.carrier] = some (k, c) := hc
    simp only [sources, Option.bind_none, hc]
    exact ⟨⟨_, rfl, rfl, hruns⟩, .inl ⟨trivial, rfl⟩⟩
  | some vs =>
    rw [Schema.preferred?, Option.bind_some] at hc
    cases hm : S.findConstructor? F (vs.map (Schema.typeOf h)) with
    | some p =>
      rw [hm, Option.some_or] at hc
      obtain rfl := Option.some.inj hc
      simp only [sources, Option.bind_some, matching?, hm, Option.map_some]
      exact ⟨⟨_, rfl, rfl, hruns⟩, .inr ⟨Option.some_ne_none vs, _, rfl, rfl, hruns⟩⟩
    | none =>
      rw [hm, Option.none_or] at hc
      simp only [sources, Option.bind_some, matching?, hm, Option.map_none, hc, Option.map_some]
      exact ⟨⟨_, rfl, rfl, hruns⟩, .inr ⟨Option.some_ne_none vs, _, rfl, rfl, hruns⟩⟩

/-- Where nothing is preferred, the factory constructor runs the constructor without arguments. -/
theorem sources_of_no_preferred (hnone : S.preferred? h F params = none) :
    (sources h S F params).1 = none ∧
      (sources h S F params).2 = (S.defaultConstructor? F).map fun (k, _) => .direct F k [] := by
  obtain ⟨hmatching, hcarrier⟩ := Option.or_eq_none_iff.mp hnone
  have hmatching : params.bind (matching? h S F) = none := by
    rw [Option.bind_eq_none_iff] at hmatching ⊢
    intro vs hvs
    rw [matching?, hmatching vs hvs]
    rfl
  simp only [sources, hmatching, hcarrier, and_self]

end FieldPlan

/-- The constructors that the two constructors of an implementation run for the value of a field: the
one that is preferred, and a public one if none is. Without parameters the default constructor prefers
none. -/
structure FieldPlan.Constructs (S : Schema) (h : Heap) (F : Ty) (params : Option (List Value))
    (default factory : ConstructorDecl) : Prop where
  factory_preferred : ∀ p ∈ S.preferred? h F params, factory = p.2
  default_preferred : params ≠ none → ∀ p ∈ S.preferred? h F params, default = p.2
  factory_public : S.preferred? h F params = none → factory.isPublic = true
  default_public : params = none ∨ S.preferred? h F params = none → default.isPublic = true

/-- The plan of a field whose type is not abstract runs constructors of that type. -/
theorem FieldPlan.constructs_of_ofConcrete {w : Workshop} {f : PropertyField} {plan : FieldPlan}
    (hplan : ofConcrete w f S = .ok plan) : ∃ default factory step, plan.factory = some step ∧
      plan.default.source.Runs S f.fieldType default ∧ step.source.Runs S f.fieldType factory ∧
        Constructs S w.heap f.fieldType f.parameters default factory := by
  obtain ⟨source, rfl, hsource⟩ := ofConcrete_eq_ok_iff.mp hplan
  cases hp : S.preferred? w.heap f.fieldType f.parameters with
  | some p =>
    obtain ⟨⟨factory, hfactory, hruns⟩, hdefault⟩ := sources_of_preferred hp
    rw [hfactory]
    rcases hdefault with ⟨hparams, hnone⟩ | ⟨hparams, source', hsome, hruns'⟩
    · -- without parameters, the default constructor falls back
      rw [hnone] at hsource
      obtain ⟨i, hi, rfl⟩ := hsource.resolve_left nofun |>.2
      obtain ⟨c, hc, hpublic⟩ := Schema.public_of_publicDefault? hi
      refine ⟨c, p.2, _, rfl, ⟨rfl, hc⟩, hruns, fun q hq => ?_, (absurd hparams ·), fun h => ?_,
        fun _ => hpublic⟩
      · rw [Option.some.inj (hp.symm.trans hq)]
      · cases hp.symm.trans h
    · rw [hsome] at hsource
      obtain rfl : source' = source := Option.some.inj (hsource.resolve_right fun h => nomatch h.1)
      refine ⟨p.2, p.2, _, rfl, hruns', hruns, fun q hq => ?_, fun _ q hq => ?_, fun h => ?_,
        fun h => ?_⟩
      · rw [Option.some.inj (hp.symm.trans hq)]
      · rw [Option.some.inj (hp.symm.trans hq)]
      · cases hp.symm.trans h
      · rcases h with h | h
        · exact absurd h hparams
        · cases hp.symm.trans h
  | none =>
    -- both fall back to the same constructor, of which the default constructor asks that it is public
    obtain ⟨hdefault, hfactory⟩ := sources_of_no_preferred hp
    rw [hdefault] at hsource
    obtain ⟨i, hi, rfl⟩ := hsource.resolve_left nofun |>.2
    obtain ⟨c, hc, hpublic⟩ := Schema.publicDefault?_eq_some_iff.mp hi
    have hget := (Schema.findConstructor?_eq_some hc).1
    rw [hfactory, hc]
    refine ⟨c, c, _, rfl, ⟨rfl, hget⟩, ⟨rfl, hget⟩, fun q hq => ?_, fun _ q hq => ?_,
      fun _ => hpublic, fun _ => hpublic⟩
    · cases hp.symm.trans hq
    · cases hp.symm.trans hq

/-! ## Wrapping values -/

/-- A mapper wraps values by the first constructor that takes one, whether it is public or not. -/
theorem MemberMapper.constructor_of_make {hooks : Hooks} {request : Request} {m : MemberMapper}
    (hm : make S hooks request = .ok m) {κ : Kind} {k : Nat} {wrapper : Ty}
    (hw : m.writer = some (.nullable κ k wrapper)) :
    wrapper = m.memberType ∧ ∃ a q c, S.findProperty? wrapper valueName = some (a, q) ∧
      S.findConstructor? wrapper [q.type] = some (k, c) := by
  obtain ⟨member, writer, -, hwrites, hnone, rfl⟩ := exists_of_make hm
  obtain rfl : writer = some (.nullable κ k wrapper) := hw
  cases hwritten : request.writes && member.isWritable with
  | false => cases hnone hwritten
  | true =>
    have hwriter := hwrites hwritten
    rw [writerFor] at hwriter
    split at hwriter
    · cases hwriter
    · split at hwriter
      · rw [nullableWriter] at hwriter
        split at hwriter
        · cases hwriter
        · next a q hq =>
          split at hwriter
          · next c _ hc =>
            cases hwriter
            exact ⟨rfl, a, q, c, hq, hc⟩
          · cases hwriter
      · cases hwriter

/-! ## Main result -/

namespace Scene

/-- The constructors that are run for the value of an owned field. If the type of the field is abstract,
its descriptor is looked up, or the default constructor runs a public constructor of the implementation.
If it is not, constructors of the type itself are run. -/
structure Exposes (S : Schema) (h : Heap) (f : PropertyField) (plan : FieldPlan) : Prop where
  abstract : S.isAbstract f.fieldType = true →
    (∃ step, plan.factory = some step ∧ step.source.target? = none) ∧
      (plan.default.source.target? = none ∨
        ∃ t c, plan.default.source.Runs S t c ∧ c.isPublic = true)
  concrete : S.isAbstract f.fieldType = false → ∃ default factory step, plan.factory = some step ∧
    plan.default.source.Runs S f.fieldType default ∧ step.source.Runs S f.fieldType factory ∧
      FieldPlan.Constructs S h f.fieldType f.parameters default factory

variable {S : Scene} {r : RegistryId} {registry : Registry} {t : Ty} {d : DescriptorId}

/-- The plans of a published implementation. -/
theorem Sound.exposes (h : S.Sound) (hr : S.world.registries[r]? = some registry)
    (hc : registry.cached? t = some d) {h₀ : Heap} {f : PropertyField} {plan : FieldPlan}
    (hplan : FieldPlan.Realizes (registry.workshop r h₀) S.world.schema (S.entries r registry)
      S.world.session f (some plan))
    (hneeds : S.world.schema.isAbstract f.fieldType = true →
      registry.provider.Needs S.world.schema t f.fieldType) :
    Exposes S.world.schema h₀ f plan := by
  have howns : registry.provider.owns S.world.schema f.fieldType = true := hplan.owns
  refine ⟨fun ha => ?_, fun ha => ?_⟩
  · obtain ⟨p, l, x, hp, hdelegates⟩ := h.delegates hr hc hplan howns ha (hneeds ha)
    obtain rfl := Option.some.inj hp
    refine ⟨⟨_, hdelegates.factory, rfl⟩, ?_⟩
    rw [hdelegates.default]
    cases f.parameters with
    | some vs => exact .inl rfl
    | none =>
      obtain ⟨e, hc', hx⟩ := hdelegates.published
      obtain ⟨_, i, _, -, -, -, -, hproduct, -⟩ :=
        (h.registries hr).exists_implementation hc' hx ha
      obtain ⟨c, hget, hpublic⟩ :=
        Schema.public_of_publicDefault? (Implementation.publicDefault?_eq hproduct)
      exact .inr ⟨_, c, ⟨rfl, hget⟩, hpublic⟩
  · cases hplan with
    | delegated _ ha' => cases ha.symm.trans ha'
    | built _ _ hp => exact FieldPlan.constructs_of_ofConcrete hp

/-- **Which constructors are run from outside their class, and which of them are public.** The
constructors of a descriptor are. A step of an implementation runs the preferred constructor of the
type of its field, if there is one, and a public one otherwise; and a mapper wraps values by the first
constructor that takes one. Neither the preferred constructor nor that of the wrapper need be public. -/
theorem constructors_exposed {told : List Served} (hruns : Runs {} told S)
    (hr : S.world.registries[r]? = some registry) (hc : registry.cached? t = some d)
    {x : Descriptor} (hx : S.world.descriptors[d]? = some x) :
    (∀ k, x.defaultConstructor = some k ∨ x.factoryConstructor = some k →
      ∃ c, (S.world.schema.constructors x.product)[k]? = some c ∧ c.isPublic = true) ∧
    (x.isSynthesized = true → ∃ (i : Implementation) (h₀ : Heap), h₀.Grows S.world.heap ∧
      S.world.schema.decl? x.product = some (i.decl S.world.schema) ∧
        i.properties.map (fun f => f.field.property) = S.world.schema.abstractProperties t ∧
          ∀ f ∈ i.properties,
            registry.provider.Chooses S.world.schema t f.field.property f.field.fieldType
              f.field.member ∧
            f.field.parameters = registry.provider.parameters t f.field.property ∧
            f.plan.isSome = registry.provider.owns S.world.schema f.field.fieldType ∧
            ∀ plan ∈ f.plan, Exposes S.world.schema h₀ f.field plan) ∧
    ∀ request m, MemberMapper.make S.world.schema registry.hooks request = .ok m →
      ∀ κ k wrapper, m.writer = some (.nullable κ k wrapper) → wrapper = m.memberType ∧
        ∃ a q c, S.world.schema.findProperty? wrapper valueName = some (a, q) ∧
          S.world.schema.findConstructor? wrapper [q.type] = some (k, c) := by
  have h := sound_of_runs hruns
  obtain ⟨h₀, hgrows, hserves⟩ := (h.registries hr).serves_cached hc hx
  refine ⟨fun k hk => ?_, fun hs => ?_, fun request m hm κ k wrapper hw =>
    MemberMapper.constructor_of_make hm hw⟩
  · cases hserves with
    | concrete _ _ _ hx =>
      subst hx
      exact Descriptor.public_of_concrete hk
    | implemented _ _ _ _ hp _ hx =>
      rw [hx] at hk
      rw [Schema.constructors, show S.world.schema.decl? x.product = _ from hp]
      rcases hk with hk | hk <;> obtain rfl := Option.some.inj hk <;> exact ⟨_, rfl, rfl⟩
  · cases hserves with
    | concrete _ _ _ hx =>
      rw [hx] at hs
      cases hs
    | @implemented b i _ hd _ habs hi hp _ _ =>
      refine ⟨i, h₀, hgrows, hp, hi.properties.properties, fun f hf => ?_⟩
      obtain ⟨q, hq, k, hrealizes⟩ := hi.properties.mem hf
      obtain ⟨F, m, hchooses, he⟩ := hrealizes.eq
      have hrealized := hrealizes.plan
      refine ⟨by rw [he]; exact hchooses, by rw [he]; rfl, ?_, fun plan hplan => ?_⟩
      · cases hplan : f.plan with
        | none => exact (hplan ▸ hrealized).not_owns.symm
        | some plan => exact (hplan ▸ hrealized).owns.symm
      rw [Option.mem_def.mp hplan] at hrealized
      refine h.exposes hr hc hrealized fun ha => ?_
      rw [he] at hrealized ha ⊢
      have habstract : S.world.schema.isAbstract t = true := by
        simp [Schema.isAbstract, hd, habs]
      exact ⟨habstract, q, hq, m, hchooses, hrealized.owns, ha⟩

/-! ### A scene -/

/-- Drafts of a class with two constructors that are not public, of an abstract class with two properties
of its type, the first of which has a parameter, and of a nullable wrapper with such a constructor and a
class that has a property of its type. -/
def vaultDrafts : List ClassDraft :=
  let kept (params : List Ty) (shown : Bool) : MemberDraft :=
    .constructor { params, isPublic := false, body := .routine [.log (.value (.ofBool shown))] }
  [{ name := "Vault.Lock"
     members := [kept [.carrier] false, kept [.scalar .bool] true, .defaultConstructor] },
   { name := "Vault.Door", isAbstract := true
     members := [
       .property { World.forestProperty (.cls 0) with
         name := "Upper", attributes := [.parameters [.ofBool true]] },
       .property { World.forestProperty (.cls 0) with name := "Lower" }, .defaultConstructor] },
   { name := "Vault.Coin", interfaces := [nullableInterface]
     members := [.auto valueName (.scalar .bool),
       .static { name := Nullable.sentinelName, type := .any, body := .blank },
       kept [.scalar .bool] true] },
   { name := "Vault.Purse", members := [.auto "Coin" (.cls 2), .defaultConstructor] }]

/-- The world in which `Vault.Door` has been implemented. -/
def vault : World := asked vaultDrafts (.cls 1)

theorem vault_runs : ∃ told, Runs {} told ⟨vault, fun _ => none⟩ := by
  have hdeclare : CanDeclare {} vaultDrafts := by decide +kernel
  exact asked_runs (opened_runs hdeclare (by decide) (by decide)) (.cls 1)

/-- The lower lock is built by the public constructor if the door is created without a carrier, and by one
that is not public if it is created with one. -/
theorem constructors_exposed_vault : ∃ (f : ForgedProperty) (plan : FieldPlan) (step : BuildStep)
    (c c' : ConstructorDecl), f.field.fieldName = "_Lower" ∧ f.plan = some plan ∧
      plan.factory = some step ∧ plan.default.source.Runs vault.schema (.cls 0) c ∧
        c.isPublic = true ∧ step.source.Runs vault.schema (.cls 0) c' ∧ c'.isPublic = false := by
  obtain ⟨told, hruns⟩ := vault_runs
  obtain ⟨registry, x, hr, hc, hx, hs, -⟩ := exists_published (w := vault) (r := 0) (t := .cls 1)
    (e := 0) (p := .cls 4) (by decide +kernel) (by decide +kernel)
  obtain ⟨-, himplementation, -⟩ := constructors_exposed hruns hr hc hx
  obtain ⟨i, h₀, -, -, hproperties, hfields⟩ := himplementation hs
  have hproperties : i.properties.map (fun f => f.field.property) =
      [{ World.forestProperty (.cls 0) with
          name := "Upper", attributes := [.parameters [.ofBool true]] },
        { World.forestProperty (.cls 0) with name := "Lower" }] :=
    hproperties.trans rfl
  obtain ⟨f, hf, hq⟩ := List.mem_map.mp (hproperties ▸ List.mem_cons_of_mem _ List.mem_cons_self)
  obtain ⟨hchooses, hparameters, hplan, hexposes⟩ := hfields f hf
  rw [hq, provider_asked hr] at hchooses hparameters
  obtain ⟨hF, -⟩ := hchooses.unique (.declared rfl)
  rw [hF, provider_asked hr] at hplan
  obtain ⟨plan, hplan⟩ := Option.isSome_iff_exists.mp (hplan.trans (by decide +kernel))
  obtain ⟨c, c', step, hstep, hc, hc', hconstructs⟩ :=
    (hexposes plan hplan).concrete (by rw [hF]; decide +kernel)
  rw [hF] at hc hc' hconstructs
  rw [hparameters] at hconstructs
  have hhidden : c'.isPublic = false := by
    rw [hconstructs.factory_preferred _ (show vault.schema.preferred? h₀ (.cls 0) none = _ from rfl)]
  exact ⟨f, plan, step, c, c', by rw [PropertyField.fieldName, hq]; rfl, hplan, hstep, hc,
    hconstructs.default_public (.inl rfl), hc', hhidden⟩

/-- So it is not true that only public constructors are run from outside, neither by the steps of
implementations nor by mappers. -/
theorem vault_runs_kept_constructors :
    (¬∀ x ctor plan step t c, vault.descriptors[0]? = some x →
      ctor ∈ vault.schema.constructors x.product → ctor.body = .plan plan → step ∈ plan.steps →
        step.source.Runs vault.schema t c → c.isPublic = true) ∧
    ¬∀ request m κ k wrapper c, MemberMapper.make vault.schema {} request = .ok m →
      m.writer = some (.nullable κ k wrapper) → (vault.schema.constructors wrapper)[k]? = some c →
        c.isPublic = true := by
  refine ⟨fun h => ?_, fun h => ?_⟩
  · have hsteps : ∃ x ctor plan step t c, vault.descriptors[0]? = some x ∧
        ctor ∈ vault.schema.constructors x.product ∧ ctor.body = .plan plan ∧ step ∈ plan.steps ∧
          step.source.Runs vault.schema t c ∧ c.isPublic = false :=
      ⟨_, _, _, _, _, _, rfl, List.mem_cons_self, rfl, List.mem_cons_self, ⟨rfl, rfl⟩, rfl⟩
    obtain ⟨x, ctor, plan, step, t, c, hx, hctor, hbody, hstep, hruns, hhidden⟩ := hsteps
    cases hhidden.symm.trans (h x ctor plan step t c hx hctor hbody hstep hruns)
  · have hmapper : ∃ m,
        MemberMapper.make vault.schema {} ⟨.cls 3, "Coin", .property, true, true⟩ = .ok m ∧
          m.writer = some (.nullable .bool 0 (.cls 2)) := ⟨_, rfl, rfl⟩
    obtain ⟨m, hm, hw⟩ := hmapper
    cases h _ m _ _ _ _ hm hw rfl

/-- When a door is created without a carrier, its upper lock is built by a constructor that is not
public. -/
example : ((vault.descriptors[0]?).map fun x => (Run.create 8 x none vault).2.events) =
    some [.logged (.scalar (.bool true))] := by
  rfl

end Scene

end RecordForge
