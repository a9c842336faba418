import RecordForge.Proofs.Heap.Basic
import RecordForge.Proofs.Synthesis.Requests

/-!
# Registries in a world that goes on

Between two requests to a registry the world does not stand still. Classes are declared, other
registries make implementations, and bodies create objects and store values. What the registry has
published goes on to serve its types all the same: `World.Tracks.grow`.

The heap matters because construction parameters are looked at in it: which constructor they match
depends on their types. A parameter that is known has the same type for good
(`Value.Known.typeOf_eq`). So we ask of a provider that the parameters it gives are known
(`Provider.Given`), as we ask that the types it gives are declared (`Provider.Within`).
-/

namespace RecordForge

/-! ## Types of known values -/

theorem Heap.Grows.classOf_eq {h h' : Heap} (hg : h.Grows h') {o : ObjectId}
    (ho : o < h.objects.size) : Schema.classOf h' o = Schema.classOf h o := by
  obtain ⟨i, hi⟩ := Heap.exists_object? ho
  obtain ⟨i', hi', hs⟩ := hg.objects hi
  have hc : i'.cls = i.cls := congrArg Shape.cls hs
  simp only [Schema.classOf, hi, hi', Option.elim_some, hc]

/-- A known value has one type for good. -/
theorem Value.Known.typeOf_eq {h h' : Heap} {v : Value} (hv : v.Known h) (hg : h.Grows h') :
    Schema.typeOf h' v = Schema.typeOf h v := by
  cases v with
  | object o => exact hg.classOf_eq hv
  | null => rfl
  | scalar x => rfl
  | carrier c => rfl

/-- An earlier heap holds no objects of other classes. -/
theorem Heap.Within.of_grows {h h' : Heap} {s : Schema} (hw : h'.Within s) (hg : h.Grows h') :
    h.Within s := by
  intro o i ho
  obtain ⟨i', hi', hs⟩ := hg.objects ho
  have hc : i'.cls = i.cls := congrArg Shape.cls hs
  exact hc ▸ hw hi'

/-! ## Parameters that are known -/

/-- The construction parameters that a provider gives for abstract properties satisfy a predicate. -/
def Provider.Gives (p : Provider) (P : Value → Prop) (s : Schema) : Prop :=
  ∀ t, s.isAbstract t = true → ∀ q ∈ s.abstractProperties t, ∀ vs, p.parameters t q = some vs →
    ∀ v ∈ vs, P v

/-- The construction parameters that a provider gives for abstract properties are known. -/
def Provider.Given (p : Provider) (h : Heap) (s : Schema) : Prop :=
  ∀ t, s.isAbstract t = true → ∀ q ∈ s.abstractProperties t, ∀ vs, p.parameters t q = some vs →
    ∀ v ∈ vs, v.Known h

namespace Provider

variable {p : Provider} {h h' : Heap} {S S' : Schema} {t F : Ty} {q : PropertyDecl}

/-- What is attached to properties satisfies a predicate if no class mentions anything else. -/
theorem attributes_gives {P : Value → Prop} (hs : ∀ {c d}, S.class? c = some d →
    ∀ q ∈ d.properties, ∀ vs, q.parameters? = some vs → ∀ v ∈ vs, P v) : attributes.Gives P S := by
  intro t _ q hq vs hvs v hv
  obtain ⟨⟨a, ha⟩, -⟩ := Schema.mem_abstractProperties.mp hq
  obtain ⟨d, hl, hp, -⟩ := Schema.mem_publicProperties ha
  have hd := Schema.decl?_of_mem_lineage hl
  obtain ⟨c, rfl, -⟩ := Schema.lt_size_of_decl? hd
  exact hs hd q hp vs hvs v hv

/-- What is attached to properties is known if no class mentions anything else. -/
theorem attributes_given (hs : ∀ {c d}, S.class? c = some d → ∀ q ∈ d.properties, ∀ vs,
    q.parameters? = some vs → ∀ v ∈ vs, v.Known h) : attributes.Given h S :=
  attributes_gives (P := (·.Known h)) hs

/-- What is known stays known. -/
theorem Given.heap (hp : p.Given h S) (hg : h.Grows h') : p.Given h' S :=
  fun t ht q hq vs hvs v hv => (hp t ht q hq vs hvs v hv).mono hg

/-- The schema may grow by classes that are not abstract. -/
theorem Gives.schema {P : Value → Prop} (hp : p.Gives P S) (hS : S.Closed) (hs : S.Extends S')
    (hconcrete : ∀ {c d}, S'.class? c = some d → S.class? c = some d ∨ d.isAbstract = false) :
    p.Gives P S' := by
  intro t ht q hq
  have hd : S.Declares t := by
    obtain ⟨d, hd, habs⟩ := Schema.exists_of_isAbstract ht
    obtain ⟨c, rfl, -⟩ := Schema.lt_size_of_decl? hd
    rcases hconcrete hd with hd' | hcon
    · exact Schema.declares_of_decl? (t := .cls c) hd'
    · rw [habs] at hcon
      cases hcon
  rw [Schema.isAbstract_eq hs hd] at ht
  rw [Schema.abstractProperties_eq hs hS hd] at hq
  exact hp t ht q hq

theorem Given.schema (hp : p.Given h S) (hS : S.Closed) (hs : S.Extends S')
    (hconcrete : ∀ {c d}, S'.class? c = some d → S.class? c = some d ∨ d.isAbstract = false) :
    p.Given h S' :=
  Gives.schema (P := (·.Known h)) hp hS hs hconcrete

theorem CanBuild.heap (hgiven : ∀ vs, p.parameters t q = some vs → ∀ v ∈ vs, v.Known h)
    (hg : h.Grows h') (hb : p.CanBuild h S t q F) : p.CanBuild h' S t q F := by
  rcases hb with ⟨vs, hvs, hc⟩ | hc
  · have htypes : vs.map (Schema.typeOf h') = vs.map (Schema.typeOf h) :=
      List.map_congr_left fun v hv => (hgiven vs hvs v hv).typeOf_eq hg
    exact .inl ⟨vs, hvs, htypes ▸ hc⟩
  · exact .inr hc

/-- What is derivable stays derivable while the heap grows. -/
theorem Derivable.heap (hp : p.Given h S) (hg : h.Grows h') (ht : p.Derivable h S t) :
    p.Derivable h' S t := by
  induction ht with
  | concrete hc hm ha => exact .concrete hc hm ha
  | @implemented t c hc hm ha F m hF hu hb _ ih =>
    have habs : S.isAbstract t = true := by rw [Schema.isAbstract, hc]; exact ha
    refine .implemented hc hm ha F m hF hu (fun q hq ho hn => ?_) ih
    exact (hb q hq ho hn).heap (hp t habs q hq) hg

end Provider

/-! ## Worlds that go on -/

/-- What is there in `w` is there in `w'`: classes and enumerations, descriptors, the questions of
lookups, and objects with their shapes. -/
structure World.Evolves (w w' : World) : Prop where
  schema : w.schema.Extends w'.schema
  descriptors : ∀ {d : DescriptorId} {x}, w.descriptors[d]? = some x → w'.descriptors[d]? = some x
  lookups : ∀ {l : LookupId} {x}, (w.lookups[l]?).map Lookup.question = some x →
    (w'.lookups[l]?).map Lookup.question = some x
  heap : w.heap.Grows w'.heap

namespace World

variable {w w' w'' : World} {r : RegistryId} {registry registry' : Registry}

theorem Evolves.refl (w : World) : w.Evolves w := ⟨.refl _, id, id, .refl _⟩

theorem Evolves.trans (h : w.Evolves w') (h' : w'.Evolves w'') : w.Evolves w'' where
  schema := h.schema.trans h'.schema
  descriptors hd := h'.descriptors (h.descriptors hd)
  lookups hl := h'.lookups (h.lookups hl)
  heap := h.heap.trans h'.heap

/-- A world in which at most the heap has grown, as far as sessions can see. -/
theorem Evolves.of_eq (hsession : w'.session = w.session) (hheap : w.heap.Grows w'.heap) :
    w.Evolves w' := by
  have hschema : w'.schema = w.schema := congrArg Session.schema hsession
  have hdescriptors : w'.descriptors = w.descriptors := congrArg Session.descriptors hsession
  have hlookups : w'.lookups = w.lookups := congrArg Session.lookups hsession
  exact ⟨hschema ▸ .refl _, hdescriptors ▸ id, hlookups ▸ id, hheap⟩

theorem Evolves.session (h : w.Evolves w') (cache : List (Ty × DescriptorId)) :
    Session.Extends cache cache w.session w'.session :=
  ⟨h.schema, h.descriptors, h.lookups, id⟩

/-- What a registry has published goes on to serve its types while the world goes on, as long as the
registry itself stays the same. -/
theorem Tracks.grow (h : w.Tracks (·.Grows w.heap) r registry) (he : w.Evolves w')
    (hgiven : registry.provider.Given w.heap w.schema) (hclosed : w'.schema.Closed)
    (hheap : w'.heap.Within w'.schema) (hprovider : registry.provider.Within w'.schema)
    (hworkshop : registry'.workshop r w.heap = registry.workshop r w.heap)
    (hcache : registry'.cache = registry.cache) :
    w'.Tracks (·.Grows w'.heap) r registry' := by
  have hp : registry'.provider = registry.provider := congrArg Workshop.provider hworkshop
  have hmade : ∀ h₀, registry'.workshop r h₀ = registry.workshop r h₀ := fun h₀ =>
    congrArg (fun x : Workshop => { x with heap := h₀ }) hworkshop
  refine ⟨.refl _, fun hg => hheap.of_grows hg, hp ▸ hprovider, ?_⟩
  rw [hmade, hcache]
  have hsession := he.session registry.cache
  refine ⟨.refl _, hclosed, h.session.distinct, ?_, fun {t d} hd => ?_, fun {t d} hd => ?_⟩
  · exact h.session.founded.rebase he.schema h.closed h.provider fun _ hu => h.session.declares hu
  · obtain ⟨x, h₀, hx, hh₀, hserves⟩ := h.session.serves hd
    have hmono := hserves.mono h.closed h.provider (h.within hh₀) (.refl _) hsession
    exact ⟨x, h₀, he.descriptors hx, hh₀.trans he.heap,
      (Descriptor.Serves.rebase he.schema h.closed h.provider hserves.declares).mpr hmono⟩
  · have hderivable : registry.provider.Derivable w.heap w.schema t := h.session.derivable hd
    have hlater := hderivable.heap hgiven he.heap
    exact (Provider.Derivable.rebase (w := registry.workshop r w'.heap) he.schema h.closed
      h.provider hderivable.declares).mpr hlater

end World

end RecordForge
