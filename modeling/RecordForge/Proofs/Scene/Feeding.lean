import RecordForge.Proofs.Scene.Tidy
import RecordForge.Proofs.Synthesis.Walks

/-!
# Steps that feed constructors

Which constructor a step runs is settled when the implementation is made, by the types that the
construction parameters have at that time. A step *feeds* a constructor if it runs the one that takes
values of exactly these types, where there is one (`BuildStep.Feeds`). As the parameters are there when
the implementation is made, they keep their types, and the step feeds the constructor in all heaps from
then on (`Scene.feeds_of_runs`).
-/

namespace RecordForge

/-! ## Steps and plans -/

/-- If the class of its field has a constructor that takes values of exactly the types of the
construction parameters, then a step runs that constructor, and with them. It passes operands to no
other constructor. -/
structure BuildStep.Feeds (h : Heap) (s : Schema) (step : BuildStep) : Prop where
  isClass : s.isClass step.fieldType = true
  source : s.isAbstract step.fieldType = false → ∀ {vs k args}, step.parameters = some vs →
    FieldPlan.matching? h s step.fieldType vs = some (k, args) →
      step.source = .direct step.fieldType k args
  operands : ∀ {t k args}, step.source = .direct t k args → args = [] ∨
    s.isAbstract step.fieldType = false ∧ ∃ vs, step.parameters = some vs ∧
      FieldPlan.matching? h s step.fieldType vs = some (k, args)

/-- All steps of the plans of a class feed constructors. -/
def ClassDecl.Feeds (h : Heap) (s : Schema) (d : ClassDecl) : Prop :=
  ∀ ctor ∈ d.constructors, ∀ p, ctor.body = .plan p → ∀ step ∈ p.steps, step.Feeds h s

/-- Both steps of the plan of a field do. -/
structure FieldPlan.Feeds (h : Heap) (s : Schema) (plan : FieldPlan) : Prop where
  default : plan.default.Feeds h s
  factory : ∀ step ∈ plan.factory, step.Feeds h s

section
variable {h h' : Heap} {s s' : Schema} {step : BuildStep} {plan : FieldPlan} {d : ClassDecl}
variable {f : PropertyField}

/-- Matching looks at the types of values only. -/
theorem FieldPlan.matching?_grow {F : Ty} {vs : List Value} (hvs : ∀ v ∈ vs, v.Known h)
    (hg : h.Grows h') : matching? h' s F vs = matching? h s F vs := by
  have htypes : vs.map (Schema.typeOf h') = vs.map (Schema.typeOf h) :=
    List.map_congr_left fun v hv => (hvs v hv).typeOf_eq hg
  have hoperands : vs.zipIdx.map (fun a => operand h' a.2 a.1) =
      vs.zipIdx.map fun a => operand h a.2 a.1 := by
    refine List.map_congr_left fun a ha => ?_
    rw [operand, operand, (hvs a.1 (List.fst_mem_of_mem_zipIdx ha)).typeOf_eq hg]
  rw [matching?, matching?, htypes]
  exact congrArg (fun ops => (s.findConstructor? F (vs.map (Schema.typeOf h))).map fun c => (c.1, ops))
    hoperands

theorem BuildStep.Feeds.schema (hs : step.Feeds h s) (he : s.Extends s') : step.Feeds h s' := by
  obtain ⟨d, hd⟩ := Option.isSome_iff_exists.mp hs.isClass
  have hF := Schema.declares_of_decl? hd
  have hmatching : ∀ vs, FieldPlan.matching? h s' step.fieldType vs =
      FieldPlan.matching? h s step.fieldType vs := fun vs => by
    rw [FieldPlan.matching?, FieldPlan.matching?, Schema.findConstructor?_eq he hF]
  refine ⟨(Schema.isClass_eq he hF).trans hs.isClass, fun ha {vs k args} hvs hm => ?_, fun ho => ?_⟩
  · rw [Schema.isAbstract_eq he hF] at ha
    exact hs.source ha hvs (hmatching vs ▸ hm)
  · obtain hargs | ⟨ha, vs, hvs, hm⟩ := hs.operands ho
    · exact .inl hargs
    · exact .inr ⟨(Schema.isAbstract_eq he hF).trans ha, vs, hvs, (hmatching vs).trans hm⟩

theorem BuildStep.Feeds.heap (hs : step.Feeds h s) (hknown : step.All (·.Known h)) (hg : h.Grows h') :
    step.Feeds h' s := by
  refine ⟨hs.isClass, fun ha {vs k args} hvs hm => hs.source ha hvs ?_, fun ho => ?_⟩
  · rwa [FieldPlan.matching?_grow (hknown.parameters vs hvs) hg] at hm
  · obtain hargs | ⟨ha, vs, hvs, hm⟩ := hs.operands ho
    · exact .inl hargs
    · refine .inr ⟨ha, vs, hvs, ?_⟩
      rwa [FieldPlan.matching?_grow (hknown.parameters vs hvs) hg]

theorem FieldPlan.Feeds.schema (hp : plan.Feeds h s) (he : s.Extends s') : plan.Feeds h s' :=
  ⟨hp.default.schema he, fun step hstep => (hp.factory step hstep).schema he⟩

theorem ClassDecl.Feeds.schema (hd : d.Feeds h s) (he : s.Extends s') : d.Feeds h s' :=
  fun ctor hctor p hp step hstep => (hd ctor hctor p hp step hstep).schema he

theorem ClassDecl.Feeds.heap (hd : d.Feeds h s) (hknown : d.All (·.Known h)) (hg : h.Grows h') :
    d.Feeds h' s := by
  intro ctor hctor p hp step hstep
  have hall := hknown.constructors ctor hctor
  rw [hp] at hall
  exact (hd ctor hctor p hp step hstep).heap (hall step hstep) hg

/-- A step for a field whose type is abstract runs no constructor of that type. -/
theorem PropertyField.step_feeds (hF : s.isClass f.fieldType = true)
    (ha : s.isAbstract f.fieldType = true) {source : Source}
    (hsource : ∀ {t k args}, source = .direct t k args → args = []) : (f.step source).Feeds h s :=
  ⟨hF, fun hconcrete => (nomatch hconcrete.symm.trans ha), fun ho => .inl (hsource ho)⟩

/-- Without operands a constructor is run if nothing else has been found. -/
theorem FieldPlan.operands_of_fallback {target t : Ty} {source : Source} {k : Nat} {args : List Operand}
    (hf : fallback s f target = .ok source) (hs : source = .direct t k args) : args = [] := by
  obtain ⟨_, -, rfl⟩ := fallback_eq_ok_iff.mp hf
  exact (Source.direct.inj hs).2.2.symm

/-- Operands are for the constructor that matches. -/
theorem FieldPlan.operands_of_sources {F t : Ty} {params : Option (List Value)} {k : Nat}
    {args : List Operand} (hs : (sources h s F params).1 = some (.direct t k args) ∨
      (sources h s F params).2 = some (.direct t k args)) :
    args = [] ∨ ∃ vs, params = some vs ∧ matching? h s F vs = some (k, args) := by
  rw [sources] at hs
  split at hs
  · next hm =>
    obtain ⟨vs, hvs, hm⟩ := Option.bind_eq_some_iff.mp hm
    rw [or_self] at hs
    obtain ⟨-, rfl, rfl⟩ := Source.direct.inj (Option.some.inj hs)
    exact .inr ⟨vs, hvs, hm⟩
  · left
    split at hs
    · rcases hs with hs | hs
      · obtain ⟨_, -, he⟩ := Option.map_eq_some_iff.mp hs
        cases he
      · cases hs
    · rcases hs with hs | hs
      · cases hs
      · obtain ⟨_, -, he⟩ := Option.map_eq_some_iff.mp hs
        exact (Source.direct.inj he).2.2.symm

/-- The plan of a field whose type is not abstract feeds the constructor that matches. -/
theorem FieldPlan.feeds_of_ofConcrete {w : Workshop} (hF : s.isClass f.fieldType = true)
    (ha : s.isAbstract f.fieldType = false) (hp : ofConcrete w f s = .ok plan) :
    plan.Feeds w.heap s := by
  obtain ⟨source, rfl, hsource⟩ := ofConcrete_eq_ok_iff.mp hp
  have hsources : ∀ {vs k args}, f.parameters = some vs →
      matching? w.heap s f.fieldType vs = some (k, args) →
        sources w.heap s f.fieldType f.parameters =
          (some (.direct f.fieldType k args), some (.direct f.fieldType k args)) := by
    intro vs k args hvs hm
    rw [sources, hvs, Option.bind_some, hm]
  refine ⟨⟨hF, fun _ {vs k args} hvs hm => ?_, fun {t k args} ho => ?_⟩, fun step hstep => ?_⟩
  · rw [hsources hvs hm] at hsource
    exact (Option.some.inj (hsource.resolve_right fun hnone => Option.some_ne_none _ hnone.1)).symm
  · obtain rfl : source = .direct t k args := ho
    rcases hsource with hsource | ⟨-, _, -, he⟩
    · exact (operands_of_sources (.inl hsource)).imp_right fun hm => ⟨ha, hm⟩
    · exact .inl (Source.direct.inj he).2.2
  · obtain ⟨factory, hfactory, rfl⟩ := Option.map_eq_some_iff.mp hstep
    refine ⟨hF, fun _ {vs k args} hvs hm => ?_, fun {t k args} ho => ?_⟩
    · rw [hsources hvs hm] at hfactory
      exact (Option.some.inj hfactory).symm
    · obtain rfl : factory = .direct t k args := ho
      exact (operands_of_sources (.inr hfactory)).imp_right fun hm => ⟨ha, hm⟩

end

/-! ## Searches -/

open RequestError (bind_eq_ok_iff)

/-- A session has made classes whose plans feed constructors. -/
structure Session.Feeds (h : Heap) (s s' : Session) : Prop where
  schema : s.schema.Extends s'.schema
  made : ∀ {c d}, s'.schema.class? c = some d → s.schema.class? c = some d ∨ d.Feeds h s'.schema

namespace Session.Feeds

variable {h : Heap} {s s' s'' : Session}

theorem refl (s : Session) : s.Feeds h s := ⟨.refl _, .inl⟩

theorem trans (hs : s.Feeds h s') (hs' : s'.Feeds h s'') : s.Feeds h s'' := by
  refine ⟨hs.schema.trans hs'.schema, fun hc => ?_⟩
  rcases hs'.made hc with hold | hnew
  · exact (hs.made hold).imp_right fun hd => hd.schema hs'.schema
  · exact .inr hnew

theorem goes (h : Heap) : Session.Goes (Session.Feeds h) where
  refl := refl
  trans := trans
  addLookup _ _ := ⟨.refl _, .inl⟩

/-- An implementation feeds constructors if the plans of its properties do. -/
theorem finish {w : Workshop} {i : Implementation} {d : DescriptorId}
    (hplans : ∀ f ∈ i.properties, ∀ plan ∈ f.plan, plan.Feeds h s.schema)
    (hfinish : i.finish w s = .ok (d, s')) : s.Feeds h s' := by
  obtain ⟨report, -, hstage⟩ := i.exists_report hfinish
  cases hstage
  have hextends : s.schema.Extends (s.addClass (i.decl s.schema)).2.schema :=
    Schema.extends_addClass _ _
  refine ⟨hextends, fun {c d} hc => ?_⟩
  rcases Schema.class?_addClass_eq_some hc with ⟨-, rfl⟩ | hold
  · refine .inr (ClassDecl.Feeds.schema (fun ctor hctor p hp step hstep => ?_) hextends)
    have hplan : ∃ plan ∈ i.plans, step = plan.default ∨ plan.factory = some step := by
      rcases List.mem_pair.mp hctor with rfl | rfl <;> obtain rfl := ConstructorBody.plan.inj hp
      · obtain ⟨plan, hplan, rfl⟩ := List.mem_map.mp hstep
        exact ⟨plan, hplan, .inl rfl⟩
      · obtain ⟨plan, hplan, hfactory⟩ := List.mem_filterMap.mp hstep
        exact ⟨plan, hplan, .inr hfactory⟩
    obtain ⟨plan, hplan, hstep⟩ := hplan
    obtain ⟨f, hf, hfp⟩ := List.mem_filterMap.mp hplan
    have hfeeds := hplans f hf plan hfp
    rcases hstep with rfl | hfactory
    · exact hfeeds.default
    · exact hfeeds.factory step hfactory
  · exact .inl hold

end Session.Feeds

section
variable {w : Workshop} {request : Request} {s s' : Session}

/-- The plan that is made for a field feeds constructors. -/
theorem FieldPlan.make_feeds (hreq : request.Goes (Session.Feeds w.heap)) {f : PropertyField}
    {plan : Option FieldPlan} (h : make w request f s = .ok (plan, s')) :
    ∀ p ∈ plan, p.Feeds w.heap s'.schema := by
  rw [make] at h
  split at h
  · cases h
    exact fun p hp => (Option.not_mem_none p hp).elim
  next d hd =>
  have hF : s.schema.isClass f.fieldType = true := Option.isSome_iff_exists.mpr ⟨d, hd⟩
  split at h
  · cases h
    exact fun p hp => (Option.not_mem_none p hp).elim
  split at h
  · next habstract =>
    obtain ⟨⟨plan', s₁⟩, hmade, h⟩ := bind_eq_ok_iff.mp h
    cases h
    obtain ⟨⟨e, s₂⟩, he, hmade⟩ := bind_eq_ok_iff.mp hmade
    -- whatever the request has made, the type of the field is the same abstract class
    have hextends : s.schema.Extends s₂.schema := (hreq he).schema
    have hdeclares := Schema.declares_of_decl? hd
    have ha : s.schema.isAbstract f.fieldType = true := by simp [Schema.isAbstract, hd, habstract]
    have hsteps : ∀ {source}, (∀ {t k args}, source = .direct t k args → args = []) →
        (f.step source).Feeds w.heap s₂.schema :=
      f.step_feeds ((Schema.isClass_eq hextends hdeclares).trans hF)
        ((Schema.isAbstract_eq hextends hdeclares).trans ha)
    have hlookup : ∀ {l source t k args}, Source.lookup l source = .direct t k args →
        args = [] := by
      intro l source t k args hdirect
      cases hdirect
    dsimp only at hmade
    intro p hp
    obtain rfl := Option.some.inj hp
    split at hmade
    · cases hmade
      exact ⟨hsteps hlookup, fun step hstep => Option.some.inj hstep ▸ hsteps hlookup⟩
    · obtain ⟨source, hfallback, hmade⟩ := bind_eq_ok_iff.mp hmade
      cases hmade
      exact ⟨hsteps (operands_of_fallback hfallback),
        fun step hstep => Option.some.inj hstep ▸ hsteps hlookup⟩
  · next habstract =>
    obtain ⟨plan', hmade, h⟩ := bind_eq_ok_iff.mp h
    cases h
    have ha : s.schema.isAbstract f.fieldType = false := by simp [Schema.isAbstract, hd, habstract]
    intro p hp
    obtain rfl := Option.some.inj hp
    exact feeds_of_ofConcrete hF ha hmade

/-- **A search** makes classes whose plans feed constructors. -/
theorem Registry.find_feeds (r : Registry) (w : Workshop) (n : Nat) (inFlight : List Ty) :
    Request.Goes (Session.Feeds w.heap) (r.find w n inFlight) := by
  refine r.find_goes (P := fun f s => ∀ plan ∈ f.plan, plan.Feeds w.heap s.schema)
    (Session.Feeds.goes w.heap) w (fun s t => ⟨.refl _, .inl⟩) ?_ ?_ .finish n inFlight
  · intro request t q slot f s s' hreq hmake
    obtain ⟨field, -, hmake⟩ := bind_eq_ok_iff.mp hmake
    obtain ⟨⟨plan, s₁⟩, hplan, hmake⟩ := bind_eq_ok_iff.mp hmake
    obtain ⟨shape, -, hmake⟩ := bind_eq_ok_iff.mp hmake
    cases hmake
    exact FieldPlan.make_feeds hreq hplan
  · intro f s s' hgoes hplans plan hplan
    exact (hplans plan hplan).schema hgoes.schema

end

/-! ## Scenes -/

namespace Scene

variable {S S' : Scene} {e : Option Served} {told : List Served}

/-- All classes of a scene feed constructors, also while the heap grows. -/
def Feeds (S : Scene) : Prop :=
  ∀ c d, S.world.schema.class? c = some d →
    ∀ heap, S.world.heap.Grows heap → d.Feeds heap S.world.schema

/-- What a search makes of the classes of a scene mentions only what is there. -/
theorem Sound.made_known (h : S.Sound) {r : RegistryId} {registry : Registry}
    (hr : S.world.registries[r]? = some registry) (hfree : S.commits r = none) {t : Ty}
    (hc : registry.cached? t = none) {i : DescriptorId} {s : Session}
    (hfind : registry.find (registry.workshop r S.world.heap) (S.world.schema.classes.size + 1) [] t
      S.world.session = .ok (i, s)) {c : ClassId} {d : ClassDecl} (hd : s.schema.class? c = some d) :
    S.world.schema.class? c = some d ∨ d.All (·.Known S.world.heap) := by
  have hat := h.registries hr
  obtain ⟨hgrows, -⟩ := hat.find_grows hfree hc hfind
  refine (hgrows.made hd).imp_right fun hmakes => ?_
  obtain ⟨t, c₀, i, h₀, hdecl, habs, -, hi, rfl⟩ := hmakes.exists_implementation hgrows.tracks hd
  have ha : S.world.schema.isAbstract t = true := by simp [Schema.isAbstract, hdecl, habs]
  exact hi.decl_all (fun _ => .of_isLiteral) fun q hq vs hvs => hat.given t ha q hq vs hvs

theorem Step.feeds (h : S.Sound) (hfeeds : S.Feeds) (hs : Step S e S') : S'.Feeds := by
  intro c d hclass heap hheap
  have he := (hs.evolves h).world
  have hold : S.world.schema.class? c = some d → d.Feeds heap S'.world.schema := fun hold =>
    (hfeeds c d hold heap (he.heap.trans hheap)).schema he.schema
  rcases hs.brings h hclass with hc | ⟨draft, hwritten, hdrafted⟩ |
    ⟨r, registry, t, i, s, hr, hfree, hc, hfind, rfl⟩
  · exact hold hc
  · intro ctor hctor p hp
    exact absurd hp ((hdrafted.written hwritten).plans ctor hctor p)
  · rcases h.made_known hr hfree hc hfind hclass with hc | hknown
    · exact hold hc
    · rcases (registry.find_feeds _ _ _ hfind).made hclass with hc | hnew
      · exact hold hc
      · exact hnew.heap hknown hheap

/-- **Plans feed constructors** in every scene that comes about from nothing. -/
theorem feeds_of_runs (hruns : Runs {} told S) : S.Feeds := by
  induction hruns with
  | refl => exact fun _ _ hc => nomatch hc
  | tail hruns hs ih => exact hs.feeds (hruns.sound sound_empty) ih

end Scene

end RecordForge
