import RecordForge.Proofs.Twin.Families

/-!
# The registries that a creation asks

Plans turn to the registry that has made them. Another registry may have made a class that is built in
the course of a creation, or one above it; but such a class has a constructor that takes a carrier. So
the creation of a plain class asks no other registry than its own (`Act.Homely.answers`).

The proof follows the acts of the creation: each of them runs a constructor of the family or of a class
that takes no carriers, or builds a field as the family does.
-/

namespace RecordForge

open Run Situation

/-! ## Registries that are alive stay alive -/

/-- A run leads from a world to another, and does not end the life of a registry. -/
structure World.Upholds (w w' : World) : Prop where
  leads : w.quiet.Sound → w.Leads w'
  alive : ∀ {r : RegistryId} {registry : Registry}, w.registries[r]? = some registry →
    registry.isAlive = true → ∃ registry', w'.registries[r]? = some registry' ∧
      registry'.isAlive = true

namespace World

variable {w w' : World} {r : RegistryId} {registry : Registry} {t : Ty}

theorem Upholds.of_works (h : w.Works w') : w.Upholds w' :=
  ⟨fun _ => h.leads, fun hr halive => ⟨_, h.registries ▸ hr, halive⟩⟩

theorem Upholds.refl (w : World) : w.Upholds w :=
  ⟨fun _ => .refl w, fun hr halive => ⟨_, hr, halive⟩⟩

theorem Upholds.sound (h : w.Upholds w') (hw : w.quiet.Sound) : w'.quiet.Sound := by
  obtain ⟨_, hruns⟩ := h.leads hw
  exact hruns.sound hw

/-- What a registry publishes does not change whether it is alive. -/
theorem descriptorFor_alive {e : DescriptorId} (hr : w.registries[r]? = some registry)
    (h : w.descriptorFor r registry t = .ok (e, w')) {r' : RegistryId} {x : Registry}
    (hx : w.registries[r']? = some x) (halive : x.isAlive = true) :
    ∃ x', w'.registries[r']? = some x' ∧ x'.isAlive = true := by
  rw [descriptorFor] at h
  split at h
  · cases h
    exact ⟨x, hx, halive⟩
  · obtain ⟨⟨found, s⟩, -, h⟩ := RequestError.bind_eq_ok_iff.mp h
    cases h
    simp only [adopt, Array.getElem?_setIfInBounds]
    by_cases heq : r = r'
    · subst heq
      obtain rfl := Option.some.inj (hr.symm.trans hx)
      rw [if_pos rfl, if_pos (Array.getElem?_eq_some_iff.mp hr).1]
      exact ⟨_, rfl, halive⟩
    · rw [if_neg heq]
      exact ⟨x, hx, halive⟩

end World

/-- **Bodies end the life of no registry.** -/
def Regime.upholding : Regime where
  Inv w := w.quiet.Sound
  Admits _ _ := True
  Opens _ _ := True
  Leads := World.Upholds
  refl := .refl
  trans h h' := by
    refine ⟨fun hs => (h.leads hs).trans (h'.leads (h.sound hs)), fun hr halive => ?_⟩
    obtain ⟨_, hr', halive'⟩ := h.alive hr halive
    exact h'.alive hr' halive'
  inv hw h := h.sound hw
  mono _ _ := trivial
  opens_mono _ _ := trivial
  admits _ := trivial
  encloses _ _ := .inl trivial
  literal _ := trivial
  literals := Regime.quiet.literals
  field _ _ _ := trivial
  parameters _ _ _ _ _ := trivial
  store h _ _ hs := .of_works (World.Works.setField h.heap hs)
  allocate h hn := ⟨.of_works (World.Works.newObject h.proper h.heap hn), trivial⟩
  carrier {w c heap} h he := by
    cases he
    exact ⟨.of_works (World.Works.of_heap w.heap.newCarrier_grows fun ho => h.heap ho), trivial⟩
  setParameters {w c values} h _ _ :=
    .of_works (World.Works.of_heap (w.heap.setParameters_grows c values) fun ho => h.heap ho)
  observe w e := ⟨fun h => World.Works.leads ⟨rfl, rfl, rfl, rfl, .refl _, h.heap⟩,
    fun hr halive => ⟨_, hr, halive⟩⟩
  spend w site := ⟨fun h => World.Works.leads ⟨rfl, rfl, rfl, rfl, .refl _, h.heap⟩,
    fun hr halive => ⟨_, hr, halive⟩⟩
  resolve {w w' l d} hw hl := by
    refine ⟨fun h => World.resolve_runs h hl, fun hr halive => ?_⟩
    obtain ⟨lookup, -, ⟨-, rfl⟩ | ⟨-, asked, e, w₁, hasked, -, hd, -, rfl⟩⟩ :=
      World.resolve_eq_ok_iff.mp hl
    · exact ⟨_, hr, halive⟩
    · exact World.descriptorFor_alive hasked hd hr halive

instance : Regime.upholding.IsOpen := ⟨fun _ => trivial⟩

/-! ## From act to act -/

section
variable {G : Regime} {w w' : World} {α : Type} {Q : World → α → Prop}

/-- What a run does leads on. -/
theorem Regime.Keeps.leads {x : Run α} {r : Except Halt α} (hx : G.Keeps w x Q) (h : x w = (r, w')) :
    G.Leads w w' := by
  have hleads := hx.1
  rw [h] at hleads
  exact hleads

/-- What a run that returns does leads on. -/
theorem Run.Returns.leads {x : Calls → Run α} {a : α} (h : Returns x w a w')
    (hx : ∀ depth, G.Keeps w (x (Calls.nested depth)) Q) : G.Leads w w' := by
  obtain ⟨N, hruns⟩ := h
  exact (hx N).leads (hruns N (Nat.le_refl N))

end

section
variable {G : Regime} (hG : ∀ w v, G.Admits w v) {w w' : World} (hw : G.Inv w)
include hG

omit hG hw in
theorem Regime.carries_all (hG : ∀ w v, G.Admits w v) (w : World) (cs : Carriers) : G.Carries w cs :=
  ⟨fun _ _ => hG w _, fun _ _ => hG w _⟩

include hw

theorem Regime.leads_take {cs : Carriers} {source : CarrierSource} {r : CarrierId × Carriers}
    (h : cs.take source w = (.ok r, w')) : G.Leads w w' :=
  (Regime.keeps_take source hw (carries_all hG w cs)).leads h

theorem Regime.leads_arguments {b : BaseCall} {cs : Carriers} {values : List Value}
    (h : b.arguments cs w = (.ok values, w')) : G.Leads w w' := by
  rw [BaseCall.arguments] at h
  split at h
  · obtain ⟨r, w₁, ht, hpure⟩ := bind_eq_ok_iff.mp h
    obtain ⟨-, rfl⟩ := pure_eq_ok_iff.mp hpure
    exact leads_take hG hw ht
  · obtain ⟨-, rfl⟩ := pure_eq_ok_iff.mp h
    exact G.refl _

theorem Regime.leads_steps [G.IsOpen] {o : ObjectId} {steps : List BuildStep} {cs cs' : Carriers}
    (h : Returns (fun c => BuildStep.runAll c o steps cs) w cs' w') : G.Leads w w' :=
  h.leads fun depth => Regime.keeps_steps (G.nested_lawful depth) hw (IsOpen.opens (hG _ _))
    (carries_all hG w cs)
    fun step _ => step.all_true.imp fun v _ => hG w v

theorem Regime.leads_infos [G.IsOpen] {o : ObjectId} {is : List InfoStep}
    (h : Returns (fun c => is.forM (InfoStep.run c o)) w () w') : G.Leads w w' :=
  h.leads fun depth => Regime.keeps_infos (G.nested_lawful depth) is hw (hG _ _)

end

/-- What leads from an act to one that it starts keeps to every regime that admits all values. -/
theorem Situation.Starts.leads {G : Regime} [G.IsOpen] (hG : ∀ w v, G.Admits w v) {m m' : Situation}
    (h : m.Starts m') (hw : G.Inv m.world) : G.Leads m.world m'.world := by
  cases h with
  | construct hd hn => exact (G.allocate hw hn).1
  | chain => exact G.refl _
  | routine => exact G.refl _
  | next => exact G.refl _
  | build hp hruns => exact Regime.leads_steps hG hw hruns
  | inform hp hruns hi =>
    have hsteps := Regime.leads_steps hG hw hruns
    exact G.trans hsteps (Regime.leads_infos hG (G.inv hw hsteps) hi)
  | base hp hruns hi ha =>
    have hsteps := Regime.leads_steps hG hw hruns
    have hinfos := G.trans hsteps (Regime.leads_infos hG (G.inv hw hsteps) hi)
    exact G.trans hinfos (Regime.leads_arguments hG (G.inv hw hinfos) ha)
  | direct hs hl =>
    exact (Regime.keeps_loadAll hw (fun _ _ v _ => hG _ v) fun v _ => hG _ v).leads hl
  | withCarrier hs ht =>
    have htake := Regime.leads_take hG hw ht
    exact G.trans htake (Regime.leads_hold (G.inv hw htake) (hG _ _) fun _ _ v _ => hG _ v)
  | lookup hs hr ht hk =>
    have hresolve := G.resolve hw hr
    have htake := G.trans hresolve (Regime.leads_take hG (G.inv hw hresolve) ht)
    exact G.trans htake (Regime.leads_hold (G.inv hw htake) (hG _ _) fun _ _ v _ => hG _ v)
  | inform_receiver => exact G.refl _

/-! ## Acts of a family -/

section
variable {w : World} {bare : Prop} {Member : Descriptor → Prop}

/-- A type of which a creation in a family may make objects. -/
def World.Homely (w : World) (Member : Descriptor → Prop) (t : Ty) : Prop :=
  w.Ordinary t ∨ ∃ x, Member x ∧ x.product = t

/-- A step that a creation in a family may take: it makes objects of such a type, or turns to a
descriptor of the family. -/
def World.HomelyStep (w : World) (Member : Descriptor → Prop) (step : BuildStep) : Prop :=
  (∀ t ∈ step.source.target?, w.Homely Member t) ∧
    ∀ l source, step.source = .lookup l source → ∃ lookup registry e x,
      w.Published l lookup registry e x ∧ registry.isAlive = true ∧ Member x

/-- An act of a creation in a family. -/
def Act.Homely (w : World) (Member : Descriptor → Prop) : Act → Prop
  | .construct t _ _ | .chain t _ _ _ => w.Homely Member t
  | .body _ _ b => ∃ t, w.Homely Member t ∧ ∃ ctor ∈ w.schema.constructors t, ctor.body = b
  | .build _ step _ => w.HomelyStep Member step
  | .inform .. | .perform .. => True

theorem World.Homely.declares (hfamily : w.Family bare Member) {t : Ty} (ht : w.Homely Member t) :
    w.schema.Declares t := by
  rcases ht with ⟨hdeclares, -⟩ | ⟨x, hx, rfl⟩
  · exact hdeclares
  · obtain ⟨plans, infos, base, hbalanced⟩ := hfamily x hx
    exact hbalanced.declares

/-- The steps of a balanced field. -/
theorem FieldPlan.Balanced.homely {plan : FieldPlan} (h : plan.Balanced w bare Member)
    {step : BuildStep} (hstep : step = plan.default ∨ plan.factory = some step) :
    w.HomelyStep Member step := by
  cases h with
  | @direct f t k args info ht =>
    obtain rfl : step = f.step (.direct t k args) :=
      hstep.elim id fun h => (Option.some.inj h).symm
    exact ⟨fun u hu => Option.some.inj hu ▸ .inl ht, fun _ _ h => nomatch h⟩
  | @turned f l lookup registry e x info hp halive hx hfits hbare =>
    have hlookup : ∀ source, w.HomelyStep Member (f.step (.lookup l source)) := by
      refine fun source => ⟨(fun u hu => nomatch hu), fun l' source' h => ?_⟩
      obtain rfl := (Source.lookup.inj h).1
      exact ⟨lookup, registry, e, x, hp, halive, hx⟩
    rcases hstep with rfl | h
    · have hdirect : w.HomelyStep Member (f.step (.direct x.product defaultIndex [])) :=
        ⟨fun u hu => Option.some.inj hu ▸ .inr ⟨x, hx, rfl⟩, fun _ _ h => nomatch h⟩
      dsimp only
      cases f.parameters with
      | none => exact hdirect
      | some vs => exact hlookup _
    · exact Option.some.inj h ▸ hlookup _

/-- The plans of a family. A class that takes no carriers has none. -/
theorem World.Homely.plan (h : w.quiet.Sound) (hs : w.quiet.Sorted) (hfamily : w.Family bare Member)
    {t : Ty} (ht : w.Homely Member t) {ctor : ConstructorDecl}
    (hctor : ctor ∈ w.schema.constructors t) {p : ConstructionPlan} (hp : ctor.body = .plan p) :
    (∀ step ∈ p.steps, w.HomelyStep Member step) ∧ ∀ b ∈ p.base, w.Homely Member b.target := by
  rcases ht with hordinary | ⟨x, hx, rfl⟩
  · obtain ⟨k, hk⟩ := List.mem_iff_getElem?.mp hctor
    obtain ⟨d, hd, hmem⟩ := Schema.mem_constructors hk
    obtain ⟨c, rfl, -⟩ := Schema.lt_size_of_decl? hd
    obtain ⟨r, registry, hr, hmakes⟩ := (hs c d hd).resolve_left fun hwritten =>
      hwritten.plans ctor hmem p hp
    obtain ⟨b, c₀, e, i, h₀, -, -, -, -, -, -, rfl, -⟩ := hmakes.spec (h.registries hr) hd
    -- an implementation has a constructor that takes a carrier
    refine absurd rfl (hordinary.2 _ List.mem_cons_self
      ⟨[.carrier], true, .plan (i.factoryPlan w.schema)⟩ ?_)
    rw [Schema.constructors, hd]
    exact List.mem_cons_of_mem _ List.mem_cons_self
  · obtain ⟨plans, infos, base, hbalanced⟩ := hfamily x hx
    rw [hbalanced.constructors] at hctor
    rcases List.mem_pair.mp hctor with rfl | rfl
    · obtain rfl := ConstructorBody.plan.inj hp
      refine ⟨fun step hstep => ?_, fun b hb => .inl (hbalanced.base b hb).2⟩
      obtain ⟨plan, hplan, rfl⟩ := List.mem_map.mp hstep
      exact (hbalanced.fields plan hplan).homely (.inl rfl)
    · obtain rfl := ConstructorBody.plan.inj hp
      refine ⟨fun step hstep => ?_, fun b hb => .inl (hbalanced.base b hb).2⟩
      obtain ⟨plan, hplan, hfactory⟩ := List.mem_filterMap.mp hstep
      exact (hbalanced.fields plan hplan).homely (.inr hfactory)

/-- A constructor that runs one of another class runs one of its base. -/
theorem World.Homely.chain (h : w.quiet.Sound) (hs : w.quiet.Sorted) (hfamily : w.Family bare Member)
    {t u : Ty} (ht : w.Homely Member t) {ctor : ConstructorDecl}
    (hctor : ctor ∈ w.schema.constructors t) {k : Nat} (hbody : ctor.body = .chain (some (u, k))) :
    w.Homely Member u := by
  rcases ht with hordinary | ⟨x, hx, rfl⟩
  · obtain ⟨j, hj⟩ := List.mem_iff_getElem?.mp hctor
    obtain ⟨d, hd, hmem⟩ := Schema.mem_constructors hj
    obtain ⟨c, rfl, -⟩ := Schema.lt_size_of_decl? hd
    rcases hs c d hd with hwritten | ⟨r, registry, hr, hmakes⟩
    · obtain ⟨b, d', ctor', rfl, -, hd', -, -, -, hbases⟩ := hwritten.chains ctor hmem u k hbody
      have hd' : w.schema.decl? (.cls b) = some d' := hd'
      refine .inl ⟨Schema.declares_of_decl? hd', fun v hv => hordinary.2 v (List.mem_cons_of_mem _ ?_)⟩
      rw [Schema.bases, hd]
      rw [Schema.ancestors, Schema.bases, hd'] at hv
      show v ∈ d.bases.map Ty.cls
      rw [hbases]
      exact hv
    · obtain ⟨b, c₀, e, i, h₀, -, -, -, -, -, -, rfl, -⟩ := hmakes.spec (h.registries hr) hd
      rcases List.mem_pair.mp hmem with rfl | rfl <;> cases hbody
  · obtain ⟨plans, infos, base, hbalanced⟩ := hfamily x hx
    rw [hbalanced.constructors] at hctor
    rcases List.mem_pair.mp hctor with rfl | rfl <;> cases hbody

/-- A lookup for a published type gives the published descriptor later, too. -/
theorem World.Published.resolve_later {w' : World} {l : LookupId} {lookup : Lookup}
    {registry : Registry} {e : DescriptorId} {x x' : Descriptor} {w₁ : World}
    (hp : w.Published l lookup registry e x) (h : w.quiet.Sound) (hl : w.Upholds w')
    (hresolve : w'.resolve l = .ok (x', w₁)) : x' = x := by
  obtain ⟨_, hruns⟩ := hl.leads h
  have hquestion : (w.lookups[l]?).map Lookup.question = some lookup.question := by rw [hp.asks]; rfl
  exact h.resolve_later hp.serves hp.cached hp.descriptor hquestion hruns hresolve

/-- If the registry of a published type is alive, it is alive later, too. -/
theorem World.Published.answers_later {w' : World} {l : LookupId} {lookup : Lookup}
    {registry : Registry} {e : DescriptorId} {x : Descriptor}
    (hp : w.Published l lookup registry e x) (halive : registry.isAlive = true) (h : w.quiet.Sound)
    (hl : w.Upholds w') : w'.Answers l := by
  intro lookup' hlookup' registry' hr'
  obtain ⟨_, hruns⟩ := hl.leads h
  have he : w.Evolves w' := (hruns.evolves h).world
  have hquestion : (w.lookups[l]?).map Lookup.question = some lookup.question := by rw [hp.asks]; rfl
  have hlater := he.lookups hquestion
  rw [hlookup'] at hlater
  obtain ⟨-, hregistry⟩ := Prod.mk.inj (Option.some.inj hlater)
  obtain ⟨registry'', hr'', halive''⟩ := hl.alive hp.serves halive
  rw [hregistry] at hr'
  obtain rfl := Option.some.inj (hr''.symm.trans hr')
  exact halive''

/-- An act of a family starts acts of the family. -/
theorem Act.Homely.starts (h : w.quiet.Sound) (hs : w.quiet.Sorted) (hfamily : w.Family bare Member)
    {m m' : Situation} (hm : m.act.Homely w Member) (hl : w.Upholds m.world) (hstarts : m.Starts m') :
    m'.act.Homely w Member := by
  -- a constructor that is found in a later world was there
  have hfound : ∀ {t k n ctor}, w.Homely Member t → m.world.schema.constructorFor t k n = .ok ctor →
      ctor ∈ w.schema.constructors t := by
    intro t k n ctor ht hctor
    obtain ⟨_, hruns⟩ := hl.leads h
    have hk := (Schema.constructorFor_eq_ok_iff.mp hctor).1
    have he : w.schema.Extends m.world.schema := (hruns.evolves h).world.schema
    rw [Schema.constructors_eq he (ht.declares hfamily)] at hk
    exact List.mem_of_getElem? hk
  cases hstarts with
  | construct hd => exact ⟨_, hm, _, hfound hm hd, rfl⟩
  | chain hd => exact ⟨_, hm, _, hfound hm hd, rfl⟩
  | routine => trivial
  | next =>
    obtain ⟨t, ht, ctor, hctor, hbody⟩ := hm
    exact ht.chain h hs hfamily hctor hbody
  | @build _ _ _ _ p _ before after step _ hp =>
    obtain ⟨t, ht, ctor, hctor, hbody⟩ := hm
    exact (ht.plan h hs hfamily hctor hbody).1 step (hp ▸ List.mem_append_cons_self)
  | inform => trivial
  | base hp =>
    obtain ⟨t, ht, ctor, hctor, hbody⟩ := hm
    exact (ht.plan h hs hfamily hctor hbody).2 _ hp
  | direct hsource => exact hm.1 _ (by rw [hsource]; rfl)
  | withCarrier hsource => exact hm.1 _ (by rw [hsource]; rfl)
  | lookup hsource hr =>
    obtain ⟨lookup, registry, e, x, hpublished, -, hx⟩ := hm.2 _ _ hsource
    obtain rfl := hpublished.resolve_later h hl hr
    exact .inr ⟨_, hx, rfl⟩
  | inform_receiver => trivial

/-- **An act of a family asks no registry that is not alive.** -/
theorem Act.Homely.answers (h : w.quiet.Sound) (hs : w.quiet.Sorted) (hfamily : w.Family bare Member)
    {act : Act} {os : List ObjectId} (hact : act.Homely w Member) {m : Situation}
    (hm : Meets ⟨w, act, os⟩ m) : ∀ l ∈ m.act.lookup?, m.world.Answers l := by
  have hreaches : m.act.Homely w Member ∧ w.Upholds m.world := by
    induction hm with
    | refl => exact ⟨hact, .refl w⟩
    | tail _ hstarts ih =>
      obtain ⟨hhomely, hl⟩ := ih
      exact ⟨hhomely.starts h hs hfamily hl hstarts, Regime.upholding.trans hl
        (hstarts.leads (G := Regime.upholding) (fun _ _ => trivial) (hl.sound h))⟩
  obtain ⟨hhomely, hl⟩ := hreaches
  intro l hlookup
  obtain ⟨w', act', os'⟩ := m
  cases act' with
  | build o step cs =>
    obtain ⟨source, hsource⟩ : ∃ source, step.source = .lookup l source := by
      rw [Act.lookup?] at hlookup
      split at hlookup
      · next l' source heq => exact ⟨source, Option.some.inj hlookup ▸ heq⟩
      · cases hlookup
    obtain ⟨lookup, registry, e, x, hpublished, halive, -⟩ := hhomely.2 l source hsource
    exact hpublished.answers_later halive h hl
  | construct => cases hlookup
  | chain => cases hlookup
  | body => cases hlookup
  | inform => cases hlookup
  | perform => cases hlookup

end

end RecordForge
