import RecordForge.Proofs.Scene.Basic
import RecordForge.Proofs.Schema.Proper

/-!
# Sound scenes

What holds in every scene that comes about from nothing, at any moment: `Scene.Sound`. At its heart
is that each registry tracks what it has published *together with* what it is about to publish. A
commit moves descriptors from one part to the other and so changes nothing about that; a search that
has succeeded adds to the second part; and whatever else goes on in the world keeps it.

`Step.sound` says that each step keeps a scene sound, `sound_of_runs` that every run from nothing
leads to a sound scene.
-/

namespace RecordForge

/-! ## The classes that a session makes -/

section
variable {w : Workshop} {H : Heap → Prop} {S : Schema} {cache : List (Ty × DescriptorId)}
variable {inFlight : List Ty} {s s' : Session} {c : ClassId} {d : ClassDecl}

/-- A class that a session has made is declared as the implementation of an abstract class. -/
theorem Session.Makes.exists_implementation (h : s.Makes w S cache c d) (hs : s.Tracks w H S cache)
    (hc : s.schema.class? c = some d) :
    ∃ t c₀, ∃ (i : Implementation) (h₀ : Heap), S.decl? t = some c₀ ∧ c₀.isAbstract = true ∧ H h₀ ∧
      i.Realizes { w with heap := h₀ } S cache s t c₀ ∧ d = i.decl S := by
  obtain ⟨b, e, x, -, ha, hk, hx, hp, -⟩ := h.known
  obtain ⟨x', h₀, hx', hh₀, hserves⟩ := hs.serves hk
  obtain rfl : x' = x := Option.some.inj (hx'.symm.trans hx)
  cases hserves with
  | concrete hd _ hcon => simp [Schema.isAbstract, hd, hcon] at ha
  | implemented hd _ habs hi hpr =>
    rw [hp] at hpr
    exact ⟨_, _, _, h₀, hd, habs, hh₀, hi, Option.some.inj (hc.symm.trans hpr)⟩

/-- What a session makes of a proper schema is proper. -/
theorem Session.Grows.proper (h : Session.Grows w H S cache inFlight s s') (hS : S.Proper)
    (hs : s.schema = S) : s'.schema.Proper := by
  have he : S.Extends s'.schema := h.tracks.schema
  have hmade : ∀ {c d}, s'.schema.class? c = some d → S.class? c = some d ∨
      s'.Makes w S cache c d := fun hc => hs ▸ h.made hc
  refine ⟨h.tracks.closed, fun {c d} hc f hf => Schema.all_declares_mono he ?_, fun {c d} hc ha => ?_⟩
  · rcases hmade hc with hold | hnew
    · exact hS.blanks hold f hf
    · obtain ⟨t, c₀, i, h₀, hd, -, -, hi, rfl⟩ := hnew.exists_implementation h.tracks hc
      rcases List.mem_append.mp hf with hf | hf
      · exact hS.layout hd f (hi.base ▸ hf)
      · obtain ⟨g, -, rfl⟩ := List.mem_map.mp hf
        exact hS.blank_all g.field.fieldType
  · rcases hmade hc with hold | hnew
    · exact hS.references hold ha
    · rw [hnew.concrete] at ha
      cases ha

end

/-! ## Sound scenes -/

/-- A registry that has the same descriptors and makes the same implementations as another. -/
structure Registry.Resembles (a b : Registry) : Prop where
  provider : b.provider = a.provider
  listener : b.listener = a.listener
  options : b.options = a.options
  cache : b.cache = a.cache
  synthesized : b.synthesized = a.synthesized

theorem Registry.Resembles.refl (a : Registry) : a.Resembles a := ⟨rfl, rfl, rfl, rfl, rfl⟩

theorem Registry.Resembles.workshop_eq {a b : Registry} (h : a.Resembles b) (r : RegistryId)
    (h₀ : Heap) : b.workshop r h₀ = a.workshop r h₀ := by
  simp only [Registry.workshop, h.provider, h.listener, h.options]

/-- How many of some descriptors belong to implementations. -/
def World.implementations (w : World) (entries : List (Ty × DescriptorId)) : Nat :=
  entries.countP fun e => (w.descriptors[e.2]?).any Descriptor.isSynthesized

namespace Scene

variable {S S' : Scene} {r : RegistryId} {registry registry' : Registry} {e : Option Served}
variable {told : List Served} {w : World}

/-- The descriptors that a registry has published or is about to publish. -/
def entries (S : Scene) (r : RegistryId) (registry : Registry) : List (Ty × DescriptorId) :=
  registry.cache ++ (S.commits r).elim [] Commit.rest

/-- A registry as it will be after its commit, as far as its descriptors are concerned. -/
def settled (S : Scene) (r : RegistryId) (registry : Registry) : Registry :=
  { registry with cache := S.entries r registry }

/-- Those descriptors that a registry has counted and not inserted. -/
def ahead (S : Scene) (r : RegistryId) : List (Ty × DescriptorId) :=
  match S.commits r with
  | some ⟨_, entry :: _, true⟩ => [entry]
  | _ => []

theorem ahead_of_uncounted {t : Ty} {rest : List (Ty × DescriptorId)}
    (hc : S.commits r = some ⟨t, rest, false⟩) : S.ahead r = [] := by
  rw [ahead, hc]
  cases rest <;> rfl

/-- What holds of a registry in a scene. -/
structure SoundAt (S : Scene) (r : RegistryId) (registry : Registry) : Prop where
  tracks : S.world.Tracks (·.Grows S.world.heap) r (S.settled r registry)
  given : registry.provider.Given S.world.heap S.world.schema
  counted : registry.synthesized = S.world.implementations (registry.cache ++ S.ahead r)
  asked : ∀ c ∈ S.commits r, c.asked ∈ (S.entries r registry).map Prod.fst

/-- What holds in a scene that has come about from nothing. -/
structure Sound (S : Scene) : Prop where
  proper : S.world.schema.Proper
  heap : S.world.heap.Within S.world.schema
  idle : ∀ {r}, S.world.registries[r]? = none → S.commits r = none
  registries : ∀ {r registry}, S.world.registries[r]? = some registry → S.SoundAt r registry
  found : ∀ {l : LookupId} {lookup : Lookup} {d}, S.world.lookups[l]? = some lookup →
    lookup.found = some d → ∃ registry, S.world.registries[lookup.registry]? = some registry ∧
      registry.cached? lookup.fieldType = some d

theorem settled_of_free (hfree : S.commits r = none) : S.settled r registry = registry := by
  rw [settled, entries, hfree]
  simp

/-- Nothing is sound. -/
theorem sound_empty : Sound {} where
  proper := Schema.proper_empty
  heap h := nomatch h
  idle _ := rfl
  registries h := nomatch h
  found h := nomatch h

/-! ## What a registry knows -/

/-- Where no key occurs twice, looking up is membership. -/
theorem lookup_eq_some_iff_mem {α β : Type} [BEq α] [LawfulBEq α] {entries : List (α × β)}
    (hd : (entries.map Prod.fst).Nodup) {a : α} {b : β} :
    entries.lookup a = some b ↔ (a, b) ∈ entries := by
  rw [List.lookup_eq_some_iff]
  constructor
  · rintro ⟨before, after, rfl, -⟩
    simp
  · intro hm
    obtain ⟨before, after, rfl⟩ := List.append_of_mem hm
    refine ⟨before, after, rfl, fun e he => bne_iff_ne.mpr fun hk => ?_⟩
    rw [List.map_append, List.nodup_append] at hd
    exact hd.2.2 e.1 (List.mem_map_of_mem he) a (by simp) hk.symm

namespace SoundAt

variable (h : S.SoundAt r registry)
include h

theorem distinct : ((S.entries r registry).map Prod.fst).Nodup := by
  have hdistinct := h.tracks.session.distinct
  rwa [show S.world.session.staged = [] from rfl, List.append_nil] at hdistinct

theorem cache_distinct : (registry.cache.map Prod.fst).Nodup := by
  have hdistinct := h.distinct
  rw [entries, List.map_append, List.nodup_append] at hdistinct
  exact hdistinct.1

/-- What is published is what is looked up. -/
theorem cached?_eq_some_iff {t : Ty} {d : DescriptorId} :
    registry.cached? t = some d ↔ (t, d) ∈ registry.cache :=
  lookup_eq_some_iff_mem h.cache_distinct

/-- What is still to be inserted is not published. -/
theorem cached?_eq_none {t : Ty} {entry : Ty × DescriptorId} {rest : List (Ty × DescriptorId)}
    {counted : Bool} (hc : S.commits r = some ⟨t, entry :: rest, counted⟩) :
    registry.cached? entry.1 = none := by
  have hdistinct := h.distinct
  rw [entries, hc, List.map_append, List.nodup_append] at hdistinct
  rw [Registry.cached?, List.lookup_eq_none_iff]
  intro e he
  have hne := hdistinct.2.2 e.1 (List.mem_map_of_mem he) entry.1 List.mem_cons_self
  exact bne_iff_ne.mpr (Ne.symm hne)

/-- The descriptor of an entry serves its type. -/
theorem serves {entry : Ty × DescriptorId} (hm : entry ∈ S.entries r registry) :
    ∃ x h₀, S.world.descriptors[entry.2]? = some x ∧ h₀.Grows S.world.heap ∧
      x.Serves (registry.workshop r h₀) S.world.schema (S.entries r registry) S.world.session
        entry.1 := by
  refine h.tracks.session.serves (Option.or_eq_some_iff.mpr (.inl ?_))
  exact (lookup_eq_some_iff_mem h.distinct).mpr hm

/-- The number of implementations among entries stays the same. -/
theorem implementations_eq (he : S.world.Evolves w) {entries : List (Ty × DescriptorId)}
    (hsub : ∀ e ∈ entries, e ∈ S.entries r registry) :
    w.implementations entries = S.world.implementations entries := by
  refine List.countP_congr fun e hm => ?_
  obtain ⟨x, -, hx, -⟩ := h.serves (hsub e hm)
  rw [hx, he.descriptors hx]

omit h in
theorem ahead_subset (S : Scene) (r : RegistryId) (registry : Registry) :
    ∀ e ∈ registry.cache ++ S.ahead r, e ∈ S.entries r registry := by
  intro e he
  rw [entries]
  rcases List.mem_append.mp he with he | he
  · exact List.mem_append_left _ he
  · refine List.mem_append_right _ ?_
    rw [ahead] at he
    split at he
    · next hc =>
      rw [hc]
      obtain rfl := List.mem_singleton.mp he
      exact List.mem_cons_self
    · cases he

theorem fits : registry.provider.Fits S.world := ⟨h.tracks.provider, h.given⟩

/-- A registry stays sound while the world goes on around it, and while it moves descriptors from
what it is about to publish to what it has published. -/
theorem grow (he : S.world.Evolves S'.world) (hclosed : S'.world.schema.Closed)
    (hheap : S'.world.heap.Within S'.world.schema) (hfits : registry'.provider.Fits S'.world)
    (hworkshop : ∀ h₀, registry'.workshop r h₀ = registry.workshop r h₀)
    (hentries : S'.entries r registry' = S.entries r registry)
    (hcount : registry'.synthesized = S.world.implementations (registry'.cache ++ S'.ahead r))
    (hasked : ∀ c ∈ S'.commits r, ∃ c₀ ∈ S.commits r, c.asked = c₀.asked) :
    S'.SoundAt r registry' := by
  have hprovider : registry'.provider = registry.provider :=
    congrArg Workshop.provider (hworkshop S.world.heap)
  refine ⟨?_, hfits.given, ?_, fun c hc => ?_⟩
  · exact h.tracks.grow he h.given hclosed hheap (hprovider ▸ hfits.within) (hworkshop _) hentries
  · rw [hcount]
    refine (h.implementations_eq he fun e hm => ?_).symm
    rw [← hentries]
    exact ahead_subset S' r registry' e hm
  · obtain ⟨c₀, hc₀, hsame⟩ := hasked c hc
    rw [hsame, hentries]
    exact h.asked c₀ hc₀

end SoundAt

/-! ## Steps of one registry -/

theorem commits_turn_of_ne {r' : RegistryId} (hne : r' ≠ r) (c : Option Commit) :
    (S.turn r w c).commits r' = S.commits r' := Function.update_of_ne hne ..

/-- A scene stays sound when one registry turns to another part of a commit. -/
theorem Sound.turn (h : S.Sound) {c : Option Commit} (hproper : w.schema.Proper)
    (he : S.world.Evolves w) (hheap : w.heap.Within w.schema)
    (hothers : ∀ r', r' ≠ r → w.registries[r']? = S.world.registries[r']?)
    (hfits : ∀ {r' : RegistryId} {registry' : Registry}, S.world.registries[r']? = some registry' →
      registry'.provider.Fits w)
    (hr : w.registries[r]? = some registry) (hsound : (S.turn r w c).SoundAt r registry)
    (hfound : ∀ {l : LookupId} {lookup : Lookup} {d}, w.lookups[l]? = some lookup →
      lookup.found = some d → ∃ registry', w.registries[lookup.registry]? = some registry' ∧
        registry'.cached? lookup.fieldType = some d) : (S.turn r w c).Sound where
  proper := hproper
  heap := hheap
  idle {r'} hr' := by
    have hne : r' ≠ r := fun heq => by
      have hr' : w.registries[r']? = none := hr'
      rw [heq, hr] at hr'
      cases hr'
    have hr' : w.registries[r']? = none := hr'
    rw [commits_turn_of_ne hne]
    exact h.idle ((hothers r' hne).symm.trans hr')
  registries {r' registry'} hr' := by
    have hr' : w.registries[r']? = some registry' := hr'
    by_cases heq : r' = r
    · subst heq
      obtain rfl := Option.some.inj (hr.symm.trans hr')
      exact hsound
    · have hold := h.registries ((hothers r' heq).symm.trans hr')
      have hcommits := commits_turn_of_ne (S := S) (w := w) heq c
      refine hold.grow he hproper.closed hheap
        (hfits ((hothers r' heq).symm.trans hr')) (fun _ => rfl) ?_ ?_ fun c hc => ⟨c, ?_, rfl⟩
      · rw [entries, entries, hcommits]
      · rw [hold.counted, ahead, ahead, hcommits]
      · exact hcommits ▸ hc
  found := hfound

/-- A registry that has a commit is there. -/
theorem Sound.exists_registry (h : S.Sound) {c : Commit} (hc : S.commits r = some c) :
    ∃ registry, S.world.registries[r]? = some registry := by
  cases hr : S.world.registries[r]? with
  | some registry => exact ⟨registry, rfl⟩
  | none =>
    rw [h.idle hr] at hc
    cases hc

/-- Turns that change no more than one registry and the events. -/
theorem Sound.turn_registry (h : S.Sound) {c : Option Commit}
    (hsession : w.session = S.world.session) (hheap : w.heap = S.world.heap)
    (hothers : ∀ r', r' ≠ r → w.registries[r']? = S.world.registries[r']?)
    (hr : S.world.registries[r]? = some registry) (hr' : w.registries[r]? = some registry')
    (hworkshop : ∀ h₀, registry'.workshop r h₀ = registry.workshop r h₀)
    (hkept : ∀ t d, registry.cached? t = some d → registry'.cached? t = some d)
    (hentries : (S.turn r w c).entries r registry' = S.entries r registry)
    (hcount : registry'.synthesized =
      S.world.implementations (registry'.cache ++ (S.turn r w c).ahead r))
    (hasked : ∀ k ∈ c, ∃ k₀ ∈ S.commits r, k.asked = k₀.asked) : (S.turn r w c).Sound := by
  have hschema : w.schema = S.world.schema := congrArg Session.schema hsession
  have hlookups : w.lookups = S.world.lookups := congrArg Session.lookups hsession
  have hproper : w.schema.Proper := hschema ▸ h.proper
  have he : S.world.Evolves w := .of_eq hsession (hheap ▸ .refl _)
  have hwithin : w.heap.Within w.schema := by
    rw [hheap, hschema]
    exact h.heap
  have hfits : ∀ {r' : RegistryId} {x : Registry}, S.world.registries[r']? = some x →
      x.provider.Fits w := by
    intro r' x hx
    have hf := (h.registries hx).fits
    exact ⟨hschema ▸ hf.within, by rw [hheap, hschema]; exact hf.given⟩
  refine h.turn hproper he hwithin hothers hfits hr' ?_ fun {l lookup d} hl hd => ?_
  · refine (h.registries hr).grow he hproper.closed hwithin ?_ hworkshop hentries hcount ?_
    · rw [show registry'.provider = registry.provider from
        congrArg Workshop.provider (hworkshop w.heap)]
      exact hfits hr
    · rw [turn_commits]
      exact hasked
  · obtain ⟨x, hx, hc⟩ := h.found (hlookups ▸ hl) hd
    by_cases heq : lookup.registry = r
    · rw [heq] at hx ⊢
      obtain rfl := Option.some.inj (hr.symm.trans hx)
      exact ⟨registry', hr', hkept _ _ hc⟩
    · exact ⟨x, (hothers _ heq).trans hx, hc⟩

/-- Counting a descriptor. -/
theorem Sound.count (h : S.Sound) {t : Ty} {entry : Ty × DescriptorId}
    {rest : List (Ty × DescriptorId)} (hc : S.commits r = some ⟨t, entry :: rest, false⟩) :
    (S.turn r (S.world.count r entry.2) (some ⟨t, entry :: rest, true⟩)).Sound := by
  obtain ⟨registry, hr⟩ := h.exists_registry hc
  have hat := h.registries hr
  have hentry : entry ∈ S.entries r registry := by
    rw [entries, hc]
    simp
  obtain ⟨x, -, hx, -⟩ := hat.serves hentry
  obtain ⟨hsession, hheap, hothers⟩ := S.world.count_frame r entry.2
  refine h.turn_registry hsession hheap hothers hr (World.count_registry hr hx) (fun _ => rfl) (fun _ _ => id) ?_ ?_ ?_
  · rw [entries, entries, turn_commits, hc]
    rfl
  · have hsofar := hat.counted
    rw [ahead_of_uncounted hc] at hsofar
    rw [ahead, turn_commits]
    simp only [World.implementations, List.countP_append, List.countP_nil, List.countP_singleton, hx,
      Option.any_some] at hsofar ⊢
    rw [hsofar]
    rfl
  · rintro k ⟨⟩
    exact ⟨_, hc, rfl⟩

/-- Inserting the descriptor that was counted. -/
theorem Sound.insert (h : S.Sound) {t : Ty} {entry : Ty × DescriptorId}
    {rest : List (Ty × DescriptorId)} (hc : S.commits r = some ⟨t, entry :: rest, true⟩) :
    (S.turn r (S.world.insert r entry) (some ⟨t, rest, false⟩)).Sound := by
  obtain ⟨registry, hr⟩ := h.exists_registry hc
  have hat := h.registries hr
  obtain ⟨hsession, hheap, hothers⟩ := S.world.insert_frame r entry
  have hr' := World.insert_registry hr (hat.cached?_eq_none hc)
  refine h.turn_registry hsession hheap hothers hr hr' (fun _ => rfl) (fun t d hd => ?_) ?_ ?_ ?_
  · exact (List.lookup_append).trans (Option.or_eq_some_iff.mpr (.inl hd))
  · rw [entries, entries, turn_commits, hc]
    exact List.append_assoc ..
  · have hsofar := hat.counted
    rw [ahead, hc] at hsofar
    rw [ahead_of_uncounted turn_commits, List.append_nil]
    exact hsofar
  · rintro k ⟨⟩
    exact ⟨_, hc, rfl⟩

/-- Ending a commit. -/
theorem Sound.finish (h : S.Sound) {t : Ty} {counted : Bool}
    (hr : S.world.registries[r]? = some registry) (hc : S.commits r = some ⟨t, [], counted⟩) :
    (S.turn r S.world none).Sound := by
  refine h.turn_registry rfl rfl (fun _ _ => rfl) hr hr (fun _ => rfl) (fun _ _ => id) ?_ ?_ ?_
  · rw [entries, entries, turn_commits, hc]
    rfl
  · have hsofar := (h.registries hr).counted
    rw [ahead, hc] at hsofar
    rw [ahead, turn_commits]
    exact hsofar
  · rintro k ⟨⟩

/-- What a search that has succeeded has made. -/
theorem SoundAt.find_grows (h : S.SoundAt r registry) (hfree : S.commits r = none) {t : Ty}
    {d : DescriptorId} {s : Session} (hc : registry.cached? t = none)
    (hf : registry.find (registry.workshop r S.world.heap) (S.world.schema.classes.size + 1) [] t
      S.world.session = .ok (d, s)) :
    Session.Grows (registry.workshop r S.world.heap) (·.Grows S.world.heap) S.world.schema
      registry.cache [] S.world.session s ∧ s.known? registry.cache t = some d := by
  have htracks := h.tracks
  rw [settled_of_free hfree] at htracks
  have hanswers := htracks.find_answers (World.recalls_published _ _ _) hc
  rw [hf] at hanswers
  cases hanswers with
  | answered _ ha => exact ha

/-- What a registry has made is what it is about to publish. -/
theorem SoundAt.begin_tracks (h : S.SoundAt r registry) (hfree : S.commits r = none) {t : Ty}
    {s : Session} (hgrows : Session.Grows (registry.workshop r S.world.heap) (·.Grows S.world.heap)
      S.world.schema registry.cache [] S.world.session s) :
    let S' := S.turn r (S.world.take registry s) (some ⟨t, s.staged, false⟩)
    S'.world.Tracks (·.Grows S.world.heap) r (S'.settled r registry) ∧
      Session.Extends registry.cache (S'.entries r registry) s S'.world.session := by
  intro S'
  have htracks := h.tracks
  rw [settled_of_free hfree] at htracks
  have hentries : (S'.settled r registry).cache = registry.cache ++ s.staged := by
    rw [settled, entries, turn_commits]
    rfl
  have hsession : S'.world.session = { s with staged := [] } := rfl
  have hworkshop : (S'.settled r registry).workshop r S.world.heap =
      registry.workshop r S.world.heap := rfl
  exact htracks.take hgrows hsession rfl hworkshop hentries

/-- Beginning a commit. -/
theorem Sound.begin (h : S.Sound) {t : Ty} {d : DescriptorId} {s : Session}
    (hr : S.world.registries[r]? = some registry) (hfree : S.commits r = none)
    (hc : registry.cached? t = none)
    (hf : registry.find (registry.workshop r S.world.heap) (S.world.schema.classes.size + 1) [] t
      S.world.session = .ok (d, s)) :
    (S.turn r (S.world.take registry s) (some ⟨t, s.staged, false⟩)).Sound := by
  have hat := h.registries hr
  obtain ⟨hgrows, hknown⟩ := hat.find_grows hfree hc hf
  have he : S.world.Evolves (S.world.take registry s) :=
    ⟨hgrows.extends'.schema, hgrows.extends'.descriptors, hgrows.extends'.lookups, .refl _⟩
  have hwithin : S.world.heap.Within s.schema := fun ho => (h.heap ho).mono he.schema
  have hfits : ∀ {r' : RegistryId} {x : Registry}, S.world.registries[r']? = some x →
      x.provider.Fits (S.world.take registry s) := by
    intro r' x hx
    have hf := (h.registries hx).fits
    exact ⟨hf.within.mono h.proper.closed he.schema hgrows.concrete,
      hf.given.schema h.proper.closed he.schema hgrows.concrete⟩
  refine h.turn (hgrows.proper h.proper rfl) he hwithin (fun _ _ => rfl) hfits hr ?_
    fun {l lookup d'} hl hd' => h.found (hgrows.found hl hd') hd'
  refine ⟨(hat.begin_tracks hfree hgrows).1, (hfits hr).given, ?_, ?_⟩
  · rw [ahead_of_uncounted turn_commits, List.append_nil]
    have hsofar := hat.counted
    rw [ahead, hfree, List.append_nil] at hsofar
    rw [hsofar]
    exact (hat.implementations_eq he fun e hm => List.mem_append_left _ hm).symm
  · rw [turn_commits, entries, turn_commits]
    rintro k ⟨⟩
    exact Session.known?_isSome_iff.mp (Option.isSome_iff_exists.mpr ⟨d, hknown⟩)

/-! ## Other steps -/

/-- A scene stays sound when registries go on as they are, or begin with nothing. -/
theorem Sound.proceed (h : S.Sound) (hcommits : S'.commits = S.commits)
    (hproper : S'.world.schema.Proper) (he : S.world.Evolves S'.world)
    (hheap : S'.world.heap.Within S'.world.schema)
    (hfits : ∀ {r : RegistryId} {registry : Registry}, S'.world.registries[r]? = some registry →
      registry.provider.Fits S'.world)
    (hkept : ∀ {r : RegistryId} {registry : Registry}, S.world.registries[r]? = some registry →
      ∃ registry', S'.world.registries[r]? = some registry' ∧ registry.Resembles registry')
    (hnew : ∀ {r : RegistryId} {registry' : Registry}, S'.world.registries[r]? = some registry' →
      S.world.registries[r]? = none → registry'.cache = [] ∧ registry'.synthesized = 0)
    (hfound : ∀ {l : LookupId} {lookup : Lookup} {d}, S'.world.lookups[l]? = some lookup →
      lookup.found = some d → ∃ registry, S.world.registries[lookup.registry]? = some registry ∧
        registry.cached? lookup.fieldType = some d) : S'.Sound where
  proper := hproper
  heap := hheap
  idle {r} hr := by
    rw [hcommits]
    cases hold : S.world.registries[r]? with
    | none => exact h.idle hold
    | some registry =>
      obtain ⟨registry', hr', -⟩ := hkept hold
      rw [hr] at hr'
      cases hr'
  registries {r registry'} hr' := by
    cases hold : S.world.registries[r]? with
    | some registry =>
      obtain ⟨x, hx, hlike⟩ := hkept hold
      obtain rfl := Option.some.inj (hx.symm.trans hr')
      have hat := h.registries hold
      have hahead : S'.ahead r = S.ahead r := by rw [ahead, ahead, hcommits]
      refine hat.grow he hproper.closed hheap (hfits hr') (hlike.workshop_eq r) ?_ ?_
        fun c hc => ⟨c, hcommits ▸ hc, rfl⟩
      · rw [entries, entries, hcommits, hlike.cache]
      · rw [hlike.synthesized, hlike.cache, hahead]
        exact hat.counted
    | none =>
      obtain ⟨hcache, hcount⟩ := hnew hr' hold
      have hfree : S'.commits r = none := hcommits ▸ h.idle hold
      refine ⟨?_, (hfits hr').given, ?_, ?_⟩
      · rw [settled_of_free hfree]
        exact .of_fresh r (.refl _) (fun hg => hheap.of_grows hg) hproper.closed (hfits hr').within
          hcache
      · rw [hcount, hcache, ahead, hfree]
        rfl
      · rw [hfree]
        rintro c ⟨⟩
  found {l lookup d} hl hd := by
    obtain ⟨registry, hr, hc⟩ := hfound hl hd
    obtain ⟨registry', hr', hlike⟩ := hkept hr
    exact ⟨registry', hr', by rw [Registry.cached?, hlike.cache]; exact hc⟩

/-- Steps that leave the registries as they are. -/
theorem Sound.proceed_registries (h : S.Sound) (hcommits : S'.commits = S.commits)
    (hproper : S'.world.schema.Proper) (he : S.world.Evolves S'.world)
    (hheap : S'.world.heap.Within S'.world.schema)
    (hregistries : S'.world.registries = S.world.registries)
    (hfits : ∀ {r : RegistryId} {registry : Registry}, S.world.registries[r]? = some registry →
      registry.provider.Fits S'.world)
    (hfound : ∀ {l : LookupId} {lookup : Lookup} {d}, S'.world.lookups[l]? = some lookup →
      lookup.found = some d → ∃ registry, S.world.registries[lookup.registry]? = some registry ∧
        registry.cached? lookup.fieldType = some d) : S'.Sound := by
  refine h.proceed hcommits hproper he hheap (fun hr => hfits (hregistries ▸ hr))
    (fun {r registry} hr => ⟨registry, hregistries ▸ hr, .refl _⟩) (fun {r registry} hr hold => ?_)
    hfound
  rw [hregistries, hold] at hr
  cases hr

/-- A lookup that has found something asks what it asked before. -/
theorem evolves_note {w : World} {l : LookupId} {lookup : Lookup}
    (hl : w.lookups[l]? = some lookup) (d : DescriptorId) :
    w.Evolves { w with lookups := w.lookups.setIfInBounds l { lookup with found := some d } } := by
  have hlt : l < w.lookups.size := (Array.getElem?_eq_some_iff.mp hl).1
  refine ⟨.refl _, id, fun {l' x} hx => ?_, .refl _⟩
  show ((w.lookups.setIfInBounds l _)[l']?).map Lookup.question = some x
  by_cases heq : l = l'
  · subst heq
    rw [Array.getElem?_setIfInBounds_self_of_lt hlt]
    rw [hl] at hx
    exact hx
  · rw [Array.getElem?_setIfInBounds_ne heq]
    exact hx

/-- A lookup keeps what it has found. -/
theorem Sound.note (h : S.Sound) {l : LookupId} {lookup : Lookup} {d : DescriptorId}
    (hl : S.world.lookups[l]? = some lookup)
    (hr : S.world.registries[lookup.registry]? = some registry)
    (hc : registry.cached? lookup.fieldType = some d) :
    Sound { S with world := { S.world with
      lookups := S.world.lookups.setIfInBounds l { lookup with found := some d } } } := by
  refine h.proceed_registries rfl h.proper (evolves_note hl d) h.heap rfl
    (fun hr' => ⟨(h.registries hr').fits.within, (h.registries hr').fits.given⟩)
    fun {l' lookup' d'} hl' hd' => ?_
  have hl' : (S.world.lookups.setIfInBounds l { lookup with found := some d })[l']? =
      some lookup' := hl'
  by_cases heq : l = l'
  · subst heq
    rw [Array.getElem?_setIfInBounds_self_of_lt (Array.getElem?_eq_some_iff.mp hl).1] at hl'
    obtain rfl := Option.some.inj hl'
    obtain rfl := Option.some.inj hd'
    exact ⟨registry, hr, hc⟩
  · rw [Array.getElem?_setIfInBounds_ne heq] at hl'
    exact h.found hl' hd'

/-- Bodies run. -/
theorem Sound.work (h : S.Sound) (hw : S.world.Works w) : Sound { S with world := w } := by
  have hsession : w.session = S.world.session := by
    simp only [World.session, hw.schema, hw.descriptors, hw.lookups]
  refine h.proceed_registries rfl (hw.schema ▸ h.proper) (.of_eq hsession hw.heap) hw.within
    hw.registries (fun hr => ?_) fun hl hd => h.found (hw.lookups ▸ hl) hd
  have hf := (h.registries hr).fits
  exact ⟨hw.schema ▸ hf.within, hw.schema ▸ hf.given.heap hw.heap⟩

/-- The schema grows by declarations. -/
theorem Sound.extend (h : S.Sound) {schema : Schema} (hproper : schema.Proper)
    (he : S.world.schema.Extends schema)
    (hfits : ∀ {r : RegistryId} {registry : Registry}, S.world.registries[r]? = some registry →
      registry.provider.Fits { S.world with schema }) :
    Sound { S with world := { S.world with schema } } :=
  h.proceed_registries rfl hproper ⟨he, id, id, .refl _⟩ (fun ho => (h.heap ho).mono he) rfl hfits
    h.found

/-- A registry is opened. -/
theorem Sound.openRegistry (h : S.Sound) (hcache : registry.cache = [])
    (hcount : registry.synthesized = 0) (hfits : registry.provider.Fits S.world) :
    Sound { S with world := { S.world with registries := S.world.registries.push registry } } := by
  have hpush : ∀ {r : RegistryId} {registry' : Registry},
      (S.world.registries.push registry)[r]? = some registry' →
        S.world.registries[r]? = some registry' ∨
          S.world.registries[r]? = none ∧ registry' = registry := by
    intro r registry' hr
    rw [Array.getElem?_push] at hr
    split at hr
    · next heq =>
      exact .inr ⟨heq ▸ Array.getElem?_eq_none (Nat.le_refl _), (Option.some.inj hr).symm⟩
    · exact .inl hr
  refine h.proceed rfl h.proper (.of_eq rfl (.refl _)) h.heap (fun {r registry'} hr => ?_)
    (fun {r registry'} hr => ⟨registry', Session.getElem?_push_of_some hr, .refl _⟩)
    (fun {r registry'} hr hnone => ?_) h.found
  · rcases hpush hr with hold | ⟨-, rfl⟩
    · exact ⟨(h.registries hold).fits.within, (h.registries hold).fits.given⟩
    · exact ⟨hfits.within, hfits.given⟩
  · rcases hpush hr with hold | ⟨-, rfl⟩
    · rw [hnone] at hold
      cases hold
    · exact ⟨hcache, hcount⟩

/-- One registry changes in a way that does not touch its descriptors. -/
theorem Sound.modify (h : S.Sound) {f : Registry → Registry} (hf : ∀ x : Registry, x.Resembles (f x))
    (hsession : w.session = S.world.session) (hheap : w.heap = S.world.heap)
    (hregistries : ∀ r', w.registries[r']? =
      if r = r' then (S.world.registries[r']?).map f else S.world.registries[r']?) :
    Sound { S with world := w } := by
  have hschema : w.schema = S.world.schema := congrArg Session.schema hsession
  have hlookups : w.lookups = S.world.lookups := congrArg Session.lookups hsession
  have hkept : ∀ {r' : RegistryId} {x : Registry}, S.world.registries[r']? = some x →
      ∃ x', w.registries[r']? = some x' ∧ x.Resembles x' := by
    intro r' x hx
    rw [hregistries, hx]
    by_cases heq : r = r'
    · exact ⟨f x, if_pos heq, hf x⟩
    · exact ⟨x, if_neg heq, .refl x⟩
  have hnone : ∀ {r' : RegistryId}, S.world.registries[r']? = none → w.registries[r']? = none := by
    intro r' hr'
    rw [hregistries, hr']
    split <;> rfl
  refine h.proceed rfl (hschema ▸ h.proper) (.of_eq hsession (hheap ▸ .refl _)) ?_
    (fun {r' x'} hr' => ?_) hkept (fun hr' hold => ?_) fun hl hd => h.found (hlookups ▸ hl) hd
  · show w.heap.Within w.schema
    rw [hheap, hschema]
    exact h.heap
  · cases hold : S.world.registries[r']? with
    | none => rw [show w.registries[r']? = none from hnone hold] at hr'; cases hr'
    | some x =>
      obtain ⟨x'', hx'', hlike⟩ := hkept hold
      obtain rfl := Option.some.inj (hx''.symm.trans hr')
      have hfit := (h.registries hold).fits
      rw [hlike.provider]
      exact ⟨hschema ▸ hfit.within, by rw [hschema, hheap]; exact hfit.given⟩
  · have hr' := (hnone hold).symm.trans hr'
    cases hr'

/-- A request for a member mapper changes nothing but the mappers of the registry. -/
theorem mapperFor_registries {w w' : World} {request : MemberMapper.Request} {m : MapperId}
    (hr : w.registries[r]? = some registry) (h : w.mapperFor r registry request = .ok (m, w')) :
    w' = w ∨ (w'.session = w.session ∧ w'.heap = w.heap ∧ ∀ r', w'.registries[r']? =
      if r = r' then
        (w.registries[r']?).map fun x => { x with
          mappers := registry.mappers ++ [(request, w.mappers.size)] }
      else w.registries[r']?) := by
  rw [World.mapperFor] at h
  split at h
  · cases h
    exact .inl rfl
  · cases hmake : MemberMapper.make w.schema registry.hooks request with
    | error e => rw [hmake] at h; cases h
    | ok made =>
      rw [hmake] at h
      obtain ⟨-, rfl⟩ := Prod.mk.inj (Except.ok.inj h)
      refine .inr ⟨rfl, rfl, fun r' => ?_⟩
      rw [Array.getElem?_setIfInBounds]
      by_cases heq : r = r'
      · subst heq
        rw [if_pos rfl, if_pos rfl, if_pos (Array.getElem?_eq_some_iff.mp hr).1, hr]
        rfl
      · rw [if_neg heq, if_neg heq]

/-- **Each step keeps a scene sound.** -/
theorem Step.sound (h : S.Sound) (hs : Step S e S') : S'.Sound := by
  cases hs with
  | hit => exact h
  | refuse => exact h
  | begin hr hfree hc hf => exact h.begin hr hfree hc hf
  | count hc => exact h.count hc
  | insert hc => exact h.insert hc
  | finish hr hc => exact h.finish hr hc
  | note hl hr hc => exact h.note hl hr hc
  | work hw => exact h.work hw
  | declare hd _ hcovers hfits =>
    exact h.extend (h.proper.declare hd hcovers) (Schema.extends_declare hd) fun hr => hfits _ _ hr
  | enumerate d =>
    have he := Schema.extends_addEnum S.world.schema d
    refine h.extend (h.proper.addEnum d) he fun hr => ?_
    have hf := (h.registries hr).fits
    exact ⟨hf.within.mono h.proper.closed he .inl, hf.given.schema h.proper.closed he .inl⟩
  | openRegistry hcache hcount hfits => exact h.openRegistry hcache hcount hfits
  | map hr hm =>
    rcases mapperFor_registries hr hm with rfl | ⟨hsession, hheap, hregistries⟩
    · exact h
    · refine h.modify ?_ hsession hheap hregistries
      exact fun _ => ⟨rfl, rfl, rfl, rfl, rfl⟩
  | dropRegistry r =>
    refine h.modify (r := r) (f := fun x => { x with isAlive := false })
      (fun _ => ⟨rfl, rfl, rfl, rfl, rfl⟩) rfl rfl fun r' => ?_
    rw [World.dropRegistry, Array.getElem?_modify]

/-- Steps, one after the other, keep a scene sound. -/
theorem Runs.sound (h : S.Sound) (hruns : Runs S told S') : S'.Sound := by
  induction hruns with
  | refl => exact h
  | tail _ hs ih => exact hs.sound ih

/-- Whatever comes about from nothing is sound. -/
theorem sound_of_runs (hruns : Runs {} told S) : S.Sound := hruns.sound sound_empty

end Scene

end RecordForge
