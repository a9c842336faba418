import Mathlib.Data.List.Nodup
import RecordForge.Proofs.Scene.Sound

/-!
# What callers are told

A registry gives one descriptor for a type, to every caller and for good:
`one_descriptor_per_type`. This holds for every order in which steps interleave, and however many of
the searches are refused.

A step keeps what is published (`Step.evolves`), and a caller is told of a descriptor only if it is
published (`Step.published_of_told`). So a descriptor that one caller was told of is the one that all
later callers are told of.
-/

namespace RecordForge

variable {w w' : World} {r : RegistryId} {registry registry' : Registry} {t : Ty} {d : DescriptorId}

/-- A registry that knows no less than another, and makes the same implementations. -/
structure Registry.Keeps (a b : Registry) : Prop where
  cached : ∀ {t d}, a.cached? t = some d → b.cached? t = some d
  provider : b.provider = a.provider
  listener : b.listener = a.listener
  options : b.options = a.options

namespace Registry.Keeps

theorem refl (a : Registry) : a.Keeps a := ⟨id, rfl, rfl, rfl⟩

theorem trans {a b c : Registry} (h : a.Keeps b) (h' : b.Keeps c) : a.Keeps c :=
  ⟨fun hd => h'.cached (h.cached hd), h'.provider.trans h.provider, h'.listener.trans h.listener,
    h'.options.trans h.options⟩

theorem of_resembles {a b : Registry} (h : a.Resembles b) : a.Keeps b :=
  ⟨fun hd => by rwa [cached?, h.cache], h.provider, h.listener, h.options⟩

theorem insert (a : Registry) (entry : Ty × DescriptorId) : a.Keeps (a.insert entry) := by
  rw [Registry.insert]
  split
  · exact .refl a
  · exact ⟨fun hd => List.lookup_append.trans (Option.or_eq_some_iff.mpr (.inl hd)), rfl, rfl, rfl⟩

end Registry.Keeps

/-- A registry that counts a descriptor knows no less. -/
theorem World.keeps_count (w : World) (r : RegistryId) (d : DescriptorId) {r' : RegistryId}
    (hr : w.registries[r']? = some registry) :
    ∃ registry', (w.count r d).registries[r']? = some registry' ∧ registry.Keeps registry' := by
  rw [World.count]
  split
  · next counting x hcounting hx =>
    rw [Array.getElem?_setIfInBounds]
    by_cases heq : r = r'
    · subst heq
      obtain rfl := Option.some.inj (hcounting.symm.trans hr)
      refine ⟨(w.tally counting x).1, ?_, ?_⟩
      · rw [if_pos rfl, if_pos (Array.getElem?_eq_some_iff.mp hr).1]
      · rw [World.tally_eq]
        exact ⟨id, rfl, rfl, rfl⟩
    · rw [if_neg heq]
      exact ⟨registry, hr, .refl _⟩
  · exact ⟨registry, hr, .refl _⟩

namespace Scene

variable {S S' S'' : Scene} {e : Option Served} {told told' : List Served}

/-- What is there in a scene is there in a later one, and no registry knows less. -/
structure Evolves (S S' : Scene) : Prop where
  world : S.world.Evolves S'.world
  registries : ∀ {r : RegistryId} {registry : Registry}, S.world.registries[r]? = some registry →
    ∃ registry', S'.world.registries[r]? = some registry' ∧ registry.Keeps registry'

theorem Evolves.refl (S : Scene) : S.Evolves S :=
  ⟨.refl _, fun hr => ⟨_, hr, .refl _⟩⟩

theorem Evolves.trans (h : S.Evolves S') (h' : S'.Evolves S'') : S.Evolves S'' := by
  refine ⟨h.world.trans h'.world, fun hr => ?_⟩
  obtain ⟨registry', hr', hkeeps⟩ := h.registries hr
  obtain ⟨registry'', hr'', hkeeps'⟩ := h'.registries hr'
  exact ⟨registry'', hr'', hkeeps.trans hkeeps'⟩

/-- Registries that stay as they are. -/
theorem Evolves.of_world (he : S.world.Evolves S'.world)
    (hregistries : S'.world.registries = S.world.registries) : S.Evolves S' :=
  ⟨he, fun {_ registry} hr => ⟨registry, hregistries ▸ hr, .refl _⟩⟩

/-- One registry changes, and comes to know no less. -/
theorem Evolves.of_registry {r : RegistryId} {f : Registry → Registry}
    (hf : ∀ x, S.world.registries[r]? = some x → x.Keeps (f x))
    (hsession : S'.world.session = S.world.session) (hheap : S'.world.heap = S.world.heap)
    (hregistries : ∀ r', S'.world.registries[r']? =
      if r = r' then (S.world.registries[r']?).map f else S.world.registries[r']?) :
    S.Evolves S' := by
  refine ⟨.of_eq hsession (hheap ▸ .refl _), fun {r' x} hx => ?_⟩
  rw [hregistries, hx]
  by_cases heq : r = r'
  · exact ⟨f x, if_pos heq, hf x (heq ▸ hx)⟩
  · exact ⟨x, if_neg heq, .refl x⟩

/-- **What is published stays published.** -/
theorem Step.evolves (h : S.Sound) (hs : Step S e S') : S.Evolves S' := by
  cases hs with
  | hit => exact .refl S
  | refuse => exact .refl S
  | begin hr hfree hc hf =>
    obtain ⟨hgrows, -⟩ := (h.registries hr).find_grows hfree hc hf
    have he := hgrows.extends'
    exact .of_world ⟨he.schema, he.descriptors, he.lookups, .refl _⟩ rfl
  | @count r t entry rest hc =>
    obtain ⟨hsession, hheap, -⟩ := S.world.count_frame r entry.2
    exact ⟨.of_eq hsession (hheap ▸ .refl _), fun hr => S.world.keeps_count r entry.2 hr⟩
  | @insert r t entry rest hc =>
    refine .of_registry (r := r) (f := (·.insert entry)) (fun x _ => .insert x entry) rfl rfl ?_
    intro r'
    exact Array.getElem?_modify ..
  | finish => exact .of_world (.refl _) rfl
  | note hl => exact .of_world (evolves_note hl _) rfl
  | work hw =>
    refine .of_world (.of_eq ?_ hw.heap) hw.registries
    simp only [World.session, hw.schema, hw.descriptors, hw.lookups]
  | declare hd => exact .of_world ⟨Schema.extends_declare hd, id, id, .refl _⟩ rfl
  | enumerate d => exact .of_world ⟨Schema.extends_addEnum S.world.schema d, id, id, .refl _⟩ rfl
  | openRegistry =>
    exact ⟨.of_eq rfl (.refl _), fun {r x} hr => ⟨x, Session.getElem?_push_of_some hr, .refl _⟩⟩
  | map hr hm =>
    rcases mapperFor_registries hr hm with rfl | ⟨hsession, hheap, hregistries⟩
    · exact .refl S
    · refine .of_registry ?_ hsession hheap hregistries
      exact fun x _ => .of_resembles ⟨rfl, rfl, rfl, rfl, rfl⟩
  | dropRegistry r =>
    refine .of_registry (r := r) (f := fun x => { x with isAlive := false })
      (fun x _ => .of_resembles ⟨rfl, rfl, rfl, rfl, rfl⟩) rfl rfl fun r' => ?_
    rw [World.dropRegistry, Array.getElem?_modify]

theorem Runs.evolves (h : S.Sound) (hruns : Runs S told S') : S.Evolves S' := by
  induction hruns with
  | refl => exact .refl S
  | tail hruns hs ih => exact ih.trans (hs.evolves (hruns.sound h))

/-! ## What is told -/

/-- Who is told of a descriptor can find it published. -/
theorem Step.published_of_told (hs : Step S (some ⟨r, t, .ok d⟩) S') :
    ∃ registry, S'.world.registries[r]? = some registry ∧ registry.cached? t = some d := by
  generalize he : (some ⟨r, t, .ok d⟩ : Option Served) = e at hs
  cases hs with
  | hit hr hc =>
    cases he
    exact ⟨_, hr, hc⟩
  | @finish r' registry t' counted hr hc =>
    have he := Option.some.inj he
    rw [World.published] at he
    cases hd : registry.cached? t' with
    | none => rw [hd] at he; cases he
    | some d' =>
      rw [hd] at he
      cases he
      exact ⟨registry, hr, hd⟩
  | _ => cases he

/-- Of a type that has a published descriptor, callers are told that descriptor. -/
theorem Step.told_published {a : Except RequestError DescriptorId}
    (hs : Step S (some ⟨r, t, a⟩) S') (hr : S.world.registries[r]? = some registry)
    (hc : registry.cached? t = some d) : a = .ok d := by
  generalize he : (some ⟨r, t, a⟩ : Option Served) = e at hs
  cases hs with
  | hit hr' hc' =>
    cases he
    obtain rfl := Option.some.inj (hr.symm.trans hr')
    rw [Option.some.inj (hc.symm.trans hc')]
  | refuse hr' _ h =>
    cases he
    obtain rfl := Option.some.inj (hr.symm.trans hr')
    rw [World.descriptorFor, hc] at h
    cases h
  | finish hr' =>
    cases he
    obtain rfl := Option.some.inj (hr.symm.trans hr')
    rw [World.published, hc]
  | _ => cases he

/-- Who was told of a descriptor can find it published ever after. -/
theorem Runs.published_of_told (h : S.Sound) (hruns : Runs S told S')
    (hm : ⟨r, t, .ok d⟩ ∈ told) :
    ∃ registry, S'.world.registries[r]? = some registry ∧ registry.cached? t = some d := by
  induction hruns with
  | refl => cases hm
  | tail hruns hs ih =>
    rcases List.mem_append.mp hm with hm | hm
    · obtain ⟨registry, hr, hc⟩ := ih hm
      obtain ⟨registry', hr', hkeeps⟩ := (hs.evolves (hruns.sound h)).registries hr
      exact ⟨registry', hr', hkeeps.cached hc⟩
    · obtain rfl := Option.mem_toList.mp hm
      exact hs.published_of_told

/-- What is published once is what all later callers are told. -/
theorem Runs.told_published (h : S.Sound) (hruns : Runs S told S')
    (hr : S.world.registries[r]? = some registry) (hc : registry.cached? t = some d)
    {a : Except RequestError DescriptorId} (hm : ⟨r, t, a⟩ ∈ told) : a = .ok d := by
  induction hruns with
  | refl => cases hm
  | tail hruns hs ih =>
    rcases List.mem_append.mp hm with hm | hm
    · exact ih hm
    · obtain rfl := Option.mem_toList.mp hm
      obtain ⟨registry', hr', hkeeps⟩ := (hruns.evolves h).registries hr
      exact hs.told_published hr' (hkeeps.cached hc)

/-! ## Serving without interruption -/

/-- At the end of a commit the type that was asked for is published. -/
theorem Sound.exists_published (h : S.Sound) {counted : Bool}
    (hr : S.world.registries[r]? = some registry) (hc : S.commits r = some ⟨t, [], counted⟩) :
    ∃ d, S.world.published registry t = .ok d := by
  have hasked := (h.registries hr).asked _ hc
  have hentries : S.entries r registry = registry.cache := by
    rw [entries, hc]
    exact List.append_nil _
  obtain ⟨e, he, rfl⟩ := List.mem_map.mp (hentries ▸ hasked)
  have hlookup : (registry.cache.lookup e.1).isSome :=
    List.lookup_isSome_iff.mpr ⟨e, he, beq_self_eq_true _⟩
  obtain ⟨d, hd⟩ := Option.isSome_iff_exists.mp hlookup
  exact ⟨d, by rw [World.published, Registry.cached?, hd]⟩

theorem request_of_ok {w w' : World} {d : DescriptorId} (hr : w.registries[r]? = some registry)
    (hd : w.descriptorFor r registry t = .ok (d, w')) : w.request r t = w' := by
  simp [World.request, hr, hd]

theorem request_of_error {w : World} {e : RequestError} (hr : w.registries[r]? = some registry)
    (hd : w.descriptorFor r registry t = .error e) : w.request r t = w := by
  simp [World.request, hr, hd]

/-- **A request that is served without interruption is a run.** The caller is told what the request
gives. -/
theorem serves (h : S.Sound) (hr : S.world.registries[r]? = some registry)
    (hfree : S.commits r = none) (t : Ty) :
    Runs S [⟨r, t, (S.world.descriptorFor r registry t).map Prod.fst⟩]
      { S with world := S.world.request r t } := by
  cases hc : registry.cached? t with
  | some d =>
    have hok : S.world.descriptorFor r registry t = .ok (d, S.world) := by
      rw [World.descriptorFor, hc]
    rw [hok, request_of_ok hr hok]
    exact .single (.hit hr hc)
  | none =>
    cases hf : registry.find (registry.workshop r S.world.heap) (S.world.schema.classes.size + 1) []
        t S.world.session with
    | error e =>
      have herror : S.world.descriptorFor r registry t = .error e := by
        rw [World.descriptorFor, hc]
        simp only [hf]
        rfl
      rw [herror, request_of_error hr herror]
      exact .single (.refuse hr hfree herror)
    | ok found =>
      obtain ⟨d, s⟩ := found
      have hok : S.world.descriptorFor r registry t = .ok (d, S.world.adopt r registry s) := by
        rw [World.descriptorFor, hc]
        simp only [hf]
        rfl
      rw [hok, request_of_ok hr hok]
      obtain ⟨hgrows, hknown⟩ := (h.registries hr).find_grows hfree hc hf
      have hstaged : ∀ e ∈ s.staged, (s.descriptors[e.2]?).isSome := by
        intro e he
        have hknown : s.known? registry.cache e.1 = some e.2 := by
          rw [Session.known?, ← List.lookup_append]
          exact (lookup_eq_some_iff_mem hgrows.tracks.distinct).mpr (List.mem_append_right _ he)
        obtain ⟨x, -, hx, -⟩ := hgrows.tracks.serves hknown
        exact Option.isSome_iff_exists.mpr ⟨x, hx⟩
      have hadopt := World.adopt_eq hr hgrows.tracks.distinct hstaged
      obtain ⟨registry', hr', hpublished⟩ : ∃ registry',
          (S.world.adopt r registry s).registries[r]? = some registry' ∧
            registry'.cached? t = some d := by
        refine ⟨_, Array.getElem?_setIfInBounds_self_of_lt (Array.getElem?_eq_some_iff.mp hr).1, ?_⟩
        show (registry.publish s).cache.lookup t = some d
        rw [registry.cache_publish hgrows.tracks.distinct, List.lookup_append]
        exact hknown
      have hbegin := Runs.single (Step.begin hr hfree hc hf)
      rw [← List.append_nil s.staged] at hbegin
      have hcommit := hbegin.trans commit_runs
      rw [← hadopt] at hcommit
      have hfinish := hcommit.tail (.finish hr' turn_commits)
      rw [turn_turn, turn_of_free hfree, World.published, hpublished] at hfinish
      exact hfinish

/-! ## Main result -/

/-- **One descriptor per type.** However requests interleave, and whichever of them are refused: what
a registry has told a caller for a type, or has published for it, is what all later callers are told
and what the registry answers from then on; the descriptor stays the same. No two published
descriptors belong to one type. When no commit is going on, the registry has counted exactly the
implementations that it has published. -/
theorem one_descriptor_per_type {S S' : Scene} {told told' : List Served} (hearlier : Runs {} told S)
    (hlater : Runs S told' S') (r : RegistryId) (registry : Registry)
    (hr : S.world.registries[r]? = some registry) :
    ∃ registry', S'.world.registries[r]? = some registry' ∧
      (∀ t d, ⟨r, t, .ok d⟩ ∈ told ∨ registry.cached? t = some d →
        registry'.cached? t = some d ∧ S'.world.descriptors[d]? = S.world.descriptors[d]? ∧
          S'.world.descriptorFor r registry' t = .ok (d, S'.world) ∧
          ∀ a, ⟨r, t, a⟩ ∈ told' → a = .ok d) ∧
      (registry'.cache.map fun e => (S'.world.descriptors[e.2]?).map Descriptor.type).Nodup ∧
      (∀ e ∈ registry'.cache, (S'.world.descriptors[e.2]?).map Descriptor.type = some e.1) ∧
      (S'.commits r = none →
        registry'.synthesized = S'.world.implementations registry'.cache) := by
  have hS := sound_of_runs hearlier
  have hS' := hlater.sound hS
  have hevolves := hlater.evolves hS
  obtain ⟨registry', hr', hkeeps⟩ := hevolves.registries hr
  have hat := hS'.registries hr'
  have hserves : ∀ e ∈ registry'.cache, ∃ x, S'.world.descriptors[e.2]? = some x ∧ x.type = e.1 := by
    intro e he
    obtain ⟨x, _, hx, -, hserves⟩ := hat.serves (List.mem_append_left _ he)
    exact ⟨x, hx, hserves.type_eq⟩
  have htypes : ∀ e ∈ registry'.cache,
      (S'.world.descriptors[e.2]?).map Descriptor.type = some e.1 := by
    intro e he
    obtain ⟨x, hx, ht⟩ := hserves e he
    rw [hx, Option.map_some, ht]
  refine ⟨registry', hr', fun t d hd => ?_, ?_, htypes, fun hfree => ?_⟩
  · have hc : registry.cached? t = some d := by
      rcases hd with htold | hc
      · obtain ⟨x, hx, hc⟩ := hearlier.published_of_told sound_empty htold
        obtain rfl := Option.some.inj (hr.symm.trans hx)
        exact hc
      · exact hc
    have hmem : (t, d) ∈ S.entries r registry :=
      List.mem_append_left _ ((hS.registries hr).cached?_eq_some_iff.mp hc)
    obtain ⟨x, -, hx, -⟩ := (hS.registries hr).serves hmem
    have hc' := hkeeps.cached hc
    refine ⟨hc', ?_, ?_, fun a hm => hlater.told_published hS hr hc hm⟩
    · rw [hx, hevolves.world.descriptors hx]
    · rw [World.descriptorFor, hc']
  · have hkeys := hat.cache_distinct.map fun _ _ h => Option.some.inj h
    rw [List.map_map] at hkeys
    rw [List.map_congr_left htypes]
    exact hkeys
  · have hcounted := hat.counted
    rwa [ahead, hfree, List.append_nil] at hcounted

/-! ### A scene -/

/-- Adds the classes of drafts, in order. -/
def addDrafts (s : Schema) (ds : List ClassDraft) : Schema :=
  ds.foldl (fun s d => (s.addClass (s.finish d)).2) s

/-- Drafts that can be declared one after the other. -/
def CanDeclare (s : Schema) : List ClassDraft → Prop
  | [] => True
  | d :: ds => s.offence? d = none ∧ d.IsWritten ∧ (addDrafts s [d]).Covers (s.finish d) ∧
    CanDeclare (addDrafts s [d]) ds

instance decidableCanDeclare (s : Schema) : (ds : List ClassDraft) → Decidable (CanDeclare s ds)
  | [] => .isTrue trivial
  | d :: ds =>
    have := decidableCanDeclare (addDrafts s [d]) ds
    inferInstanceAs (Decidable (s.offence? d = none ∧ d.IsWritten ∧
      (addDrafts s [d]).Covers (s.finish d) ∧ CanDeclare (addDrafts s [d]) ds))

/-- A draft that has no offence is declared under the next number. -/
theorem declare_addDrafts {s : Schema} {d : ClassDraft} (hoffence : s.offence? d = none) :
    s.declare d = .ok (s.classes.size, addDrafts s [d]) :=
  Schema.declare_eq_ok_iff.mpr ⟨hoffence, rfl⟩

/-- Declaring classes before there is any registry. -/
theorem declare_runs {s : Schema} {ds : List ClassDraft} (h : CanDeclare s ds) :
    Runs ⟨{ schema := s }, fun _ => none⟩ [] ⟨{ schema := addDrafts s ds }, fun _ => none⟩ := by
  induction ds generalizing s with
  | nil => exact .refl _
  | cons d ds ih =>
    obtain ⟨hoffence, hwritten, hcovers, hrest⟩ := h
    have hstep := Step.declare (S := ⟨{ schema := s }, fun _ => none⟩) (declare_addDrafts hoffence)
      hwritten hcovers fun _ _ hr => nomatch hr
    exact (Runs.single hstep).trans (ih hrest)

/-- The scene with the classes of drafts and one registry, which has published nothing. -/
def opened (drafts : List ClassDraft) : Scene :=
  ⟨{ schema := addDrafts {} drafts, registries := #[World.forestRegistry] }, fun _ => none⟩

/-- What is attached to properties can be answered for if the construction parameters are there. -/
theorem attributes_fits {w : World} (hclosed : w.schema.Closed)
    (hknown : ∀ d ∈ w.schema.classes.toList, ∀ q ∈ d.properties, ∀ vs ∈ q.parameters?, ∀ v ∈ vs,
      v.Known w.heap) : Provider.attributes.Fits w := by
  refine ⟨Provider.attributes_within hclosed,
    Provider.attributes_given fun {c d} hd q hq vs hvs v hv => ?_⟩
  exact hknown d (Array.mem_toList_iff.mpr (Array.mem_of_getElem? hd)) q hq vs hvs v hv

/-- The registry can answer for the drafts if they give literals as construction parameters. -/
theorem opened_fits {drafts : List ClassDraft} (hclosed : (addDrafts {} drafts).Closed)
    (hliteral : ∀ d ∈ (addDrafts {} drafts).classes.toList, ∀ q ∈ d.properties,
      ∀ vs ∈ q.parameters?, ∀ v ∈ vs, v.isLiteral = true) :
    World.forestRegistry.provider.Fits { schema := addDrafts {} drafts } :=
  attributes_fits hclosed fun d hd q hq vs hvs v hv => .of_isLiteral (hliteral d hd q hq vs hvs v hv)

theorem opened_runs {drafts : List ClassDraft} (h : CanDeclare {} drafts)
    (hclosed : (addDrafts {} drafts).Closed)
    (hliteral : ∀ d ∈ (addDrafts {} drafts).classes.toList, ∀ q ∈ d.properties,
      ∀ vs ∈ q.parameters?, ∀ v ∈ vs, v.isLiteral = true) : Runs {} [] (opened drafts) :=
  (declare_runs h).tail (.openRegistry rfl rfl (opened_fits hclosed hliteral))

/-- The world in which the registry of `opened` has been asked for a type. -/
def asked (drafts : List ClassDraft) (t : Ty) : World := (opened drafts).world.request 0 t

theorem asked_runs {drafts : List ClassDraft} (h : Runs {} [] (opened drafts)) (t : Ty) :
    ∃ told, Runs {} told ⟨asked drafts t, fun _ => none⟩ :=
  ⟨_, h.trans (serves (sound_of_runs h) (r := 0) rfl rfl t)⟩

/-- A published descriptor of an implementation, with the class of the implementation. -/
theorem exists_published {w : World} {r : RegistryId} {t p : Ty} {e : DescriptorId}
    (hc : w.registries[r]?.map (fun registry => registry.cached? t) = some (some e))
    (hx : w.descriptors[e]?.map (fun x => (x.isSynthesized, x.product)) = some (true, p)) :
    ∃ registry x, w.registries[r]? = some registry ∧ registry.cached? t = some e ∧
      w.descriptors[e]? = some x ∧ x.isSynthesized = true ∧ x.product = p := by
  obtain ⟨registry, hr, hc⟩ := Option.map_eq_some_iff.mp hc
  obtain ⟨x, hx, he⟩ := Option.map_eq_some_iff.mp hx
  obtain ⟨hs, hp⟩ := Prod.mk.inj he
  exact ⟨registry, x, hr, hc, hx, hs, hp⟩

/-- Drafts of a class that is not abstract and of three abstract ones, each of which has a property
of the type before. -/
def groveDrafts : List ClassDraft :=
  let holder (name : String) (t : Ty) : ClassDraft :=
    { name, isAbstract := true
      members := [.property (World.forestProperty t), .defaultConstructor] }
  [{ name := "Grove.Leaf", members := [.defaultConstructor] },
    holder "Grove.Tree" (.cls 0), holder "Grove.Copse" (.cls 1), holder "Grove.Wood" (.cls 2)]

/-- A scene with the classes of `groveDrafts` and one registry, which has published nothing. -/
def grove : Scene := opened groveDrafts

theorem grove_canDeclare : CanDeclare {} groveDrafts := by decide +kernel

theorem grove_runs : Runs {} [] grove :=
  opened_runs grove_canDeclare (by decide) (by decide)

/-- `Grove.Tree` is asked for first. It is needed for `Grove.Wood`, too, and a caller who asks for it
after that is told the same descriptor; there are three implementations. -/
theorem one_descriptor_per_type_grove :
    let w := (grove.world.request 0 (.cls 1)).request 0 (.cls 3)
    ∃ registry, w.registries[0]? = some registry ∧
      w.descriptorFor 0 registry (.cls 1) = .ok (0, w) ∧ w.implementations registry.cache = 3 := by
  have hr : grove.world.registries[0]? = some World.forestRegistry := rfl
  obtain ⟨registry, hr₁⟩ : ∃ registry,
      (grove.world.request 0 (.cls 1)).registries[0]? = some registry := ⟨_, rfl⟩
  have hearlier := grove_runs.trans (serves (sound_of_runs grove_runs) hr rfl (.cls 1))
  have hlater := serves (sound_of_runs hearlier) hr₁ rfl (.cls 3)
  obtain ⟨registry', hr', hsame, -, -, hcount⟩ :=
    one_descriptor_per_type hearlier hlater 0 registry hr₁
  have hfirst := hsame (.cls 1) 0 (.inl (List.mem_singleton.mpr rfl))
  refine ⟨registry', hr', hfirst.2.2.1, ?_⟩
  rw [← hcount rfl]
  exact Option.some.inj ((congrArg (Option.map Registry.synthesized) hr').symm.trans rfl)

end Scene

end RecordForge
