import RecordForge.Proofs.Synthesis.Search
import RecordForge.World.Request

/-!
# What a registry answers

From outside, a registry has no memory. What it answers depends on the provider, the options and the
types alone, never on earlier requests (`request_independent`), and a registry accepts exactly the
derivable types (`request_accepts`).

`World.Tracks` is the invariant that says so: the published descriptors of a registry serve their
types. A request keeps it, whether the request is answered or refused, so it holds after every
sequence of requests (`requestAll_tracks`).
-/

namespace RecordForge

open Relation

/-! ## Published descriptors -/

/-- What a registry has published is derivable, and each published descriptor serves its type, in a
heap of `H` that there was when it was made. -/
structure World.Tracks (H : Heap → Prop) (w : World) (r : RegistryId) (registry : Registry) :
    Prop where
  here : H w.heap
  within : ∀ {h}, H h → h.Within w.schema
  provider : registry.provider.Within w.schema
  session : w.session.Tracks (registry.workshop r w.heap) H w.schema registry.cache

/-- A registry that has published nothing. -/
theorem World.Tracks.of_fresh {w : World} {H : Heap → Prop} (r : RegistryId) {registry : Registry}
    (hhere : H w.heap) (hwithin : ∀ {h}, H h → h.Within w.schema) (hS : w.schema.Closed)
    (hp : registry.provider.Within w.schema) (hfresh : registry.cache = []) :
    w.Tracks H r registry := by
  have hunknown : ∀ t, w.session.known? registry.cache t = none := fun t => by
    rw [hfresh]; rfl
  have hentries : registry.cache ++ w.session.staged = [] := by rw [hfresh]; rfl
  refine ⟨hhere, hwithin, hp, .refl _, hS, ?_, ?_, ?_, ?_⟩
  · rw [hentries]; exact .nil
  · intro before t d after he
    rw [hentries] at he
    simp at he
  · intro t d hd
    rw [hunknown] at hd; cases hd
  · intro t d hd
    rw [hunknown] at hd; cases hd

theorem World.tracks_of_fresh {w : World} (r : RegistryId) {registry : Registry}
    (hS : w.schema.Closed) (hh : w.heap.Within w.schema)
    (hp : registry.provider.Within w.schema) (hfresh : registry.cache = []) :
    w.Tracks (· = w.heap) r registry :=
  .of_fresh r rfl (fun he => he ▸ hh) hS hp hfresh

/-- A provider stays within a schema that grows by classes that are not abstract. -/
theorem Provider.Within.mono {p : Provider} {S S' : Schema} (hp : p.Within S) (hS : S.Closed)
    (h : S.Extends S') (hconcrete : ∀ {c d}, S'.class? c = some d →
      S.class? c = some d ∨ d.isAbstract = false) : p.Within S' := by
  intro t ht q hq u hu
  cases t with
  | cls c =>
    cases hd : S'.class? c with
    | none => simp [Schema.isAbstract, Schema.decl?, hd] at ht
    | some d =>
      rcases hconcrete hd with hd' | hd'
      · have hc : S.Declares (.cls c) := Option.isSome_iff_exists.mpr ⟨d, hd'⟩
        rw [Schema.isAbstract_eq h hc] at ht
        rw [Schema.abstractProperties_eq h hS hc] at hq
        exact (hp _ ht q hq u hu).mono h
      · simp [Schema.isAbstract, Schema.decl?, hd, hd'] at ht
  | any => simp [Schema.isAbstract, Schema.decl?] at ht
  | carrier => simp [Schema.isAbstract, Schema.decl?] at ht
  | scalar k => simp [Schema.isAbstract, Schema.decl?] at ht
  | enum e => simp [Schema.isAbstract, Schema.decl?] at ht

/-! ## Publishing -/

/-- What is staged is not published yet, so all of it is added. -/
theorem Registry.cache_publish (r : Registry) {s : Session}
    (hs : ((r.cache ++ s.staged).map Prod.fst).Nodup) :
    (r.publish s).cache = r.cache ++ s.staged := by
  rw [List.map_append, List.nodup_append] at hs
  have hnew : ∀ e ∈ s.staged, (r.cached? e.1).isNone = true := by
    intro e he
    rw [cached?, Option.isNone_iff_eq_none, List.lookup_eq_none_iff]
    intro e' he'
    have hne := hs.2.2 e'.1 (List.mem_map_of_mem he') e.1 (List.mem_map_of_mem he)
    exact bne_iff_ne.mpr (Ne.symm hne)
  rw [publish, List.filter_eq_self.mpr hnew]

/-- The new classes of a session are not abstract. -/
theorem Session.Grows.concrete {w : Workshop} {H : Heap → Prop} {S : Schema}
    {cache : List (Ty × DescriptorId)} {inFlight : List Ty} {s s' : Session}
    (h : Session.Grows w H S cache inFlight s s') {c : ClassId} {d : ClassDecl}
    (hc : s'.schema.class? c = some d) : s.schema.class? c = some d ∨ d.isAbstract = false := by
  exact (h.made hc).imp_right Session.Makes.concrete

variable {H : Heap → Prop} {w : World} {r : RegistryId} {registry : Registry} {t : Ty}

namespace World

/-- What a registry and its world become by a request, as far as later requests are concerned. -/
structure Follows (H : Heap → Prop) (w : World) (r : RegistryId) (registry : Registry)
    (w' : World) (registry' : Registry) : Prop where
  heap : w'.heap = w.heap
  schema : w.schema.Extends w'.schema
  workshop : registry'.workshop r w'.heap = registry.workshop r w.heap
  registries : w.registries[r]? = some registry → w'.registries[r]? = some registry'
  tracks : w'.Tracks H r registry'

theorem Tracks.closed (h : w.Tracks H r registry) : w.schema.Closed := h.session.closed

theorem Tracks.refl (h : w.Tracks H r registry) : w.Follows H r registry w registry :=
  ⟨rfl, .refl _, rfl, id, h⟩

/-- A world that has taken over what a session has made tracks it, where the registry has what the
session has staged besides its own entries. -/
theorem Tracks.take (h : w.Tracks H r registry) {s : Session} {inFlight : List Ty}
    (hs : Session.Grows (registry.workshop r w.heap) H w.schema registry.cache inFlight
      w.session s) {w' : World} {registry' : Registry}
    (hsession : w'.session = { s with staged := [] }) (hheap : w'.heap = w.heap)
    (hworkshop : registry'.workshop r w.heap = registry.workshop r w.heap)
    (hcache : registry'.cache = registry.cache ++ s.staged) :
    w'.Tracks H r registry' ∧ Session.Extends registry.cache registry'.cache s w'.session := by
  have hS' : w'.schema = s.schema := congrArg Session.schema hsession
  have hschema : w.schema.Extends s.schema := hs.tracks.schema
  have hprovider : registry'.provider = registry.provider := congrArg Workshop.provider hworkshop
  have hentries : registry'.cache ++ w'.session.staged = registry.cache ++ s.staged := by
    rw [hsession, hcache]
    exact List.append_nil _
  have hknown : ∀ u, w'.session.known? registry'.cache u = s.known? registry.cache u := fun u => by
    rw [Session.known?, Session.known?, ← List.lookup_append, ← List.lookup_append, hentries]
  have he : Session.Extends registry.cache registry'.cache s w'.session := by
    refine ⟨?_, ?_, ?_, fun hd => (hknown _).trans hd⟩ <;> rw [hsession]
    · exact .refl _
    · exact id
    · exact id
  refine ⟨⟨hheap ▸ h.here, fun {h₀} hh₀ o i ho => ?_, ?_, ?_⟩, he⟩
  · rw [hS']
    exact (h.within hh₀ ho).mono hschema
  · rw [hprovider, hS']
    exact h.provider.mono h.closed hschema hs.concrete
  · rw [hS', hheap, hworkshop]
    have hS'' : w'.session.schema = s.schema := hS'
    refine ⟨hS''.symm ▸ .refl _, hS''.symm ▸ hs.tracks.closed, hentries ▸ hs.tracks.distinct, ?_,
      fun {u d} hd => ?_, fun {u d} hd => ?_⟩
    · rw [hentries]
      exact hs.tracks.founded.rebase hschema h.closed h.provider fun _ hmem =>
        hs.tracks.declares hmem
    · obtain ⟨x, h₀, hx, hh₀, hserves⟩ := hs.tracks.serves ((hknown u).symm.trans hd)
      have hu : w.schema.Declares u := hserves.declares
      have hmono := hserves.mono h.closed h.provider (h.within hh₀) hschema he
      exact ⟨x, h₀, he.descriptors hx, hh₀,
        (Descriptor.Serves.rebase hschema h.closed h.provider hu).mpr hmono⟩
    · have hderivable := hs.tracks.derivable ((hknown u).symm.trans hd)
      have hu : w.schema.Declares u := hderivable.declares
      exact (Provider.Derivable.rebase hschema h.closed h.provider hu).mpr hderivable

/-- The world that has adopted what a session has made tracks what is published then. -/
theorem Tracks.adopt (h : w.Tracks H r registry) {s : Session} {inFlight : List Ty}
    (hs : Session.Grows (registry.workshop r w.heap) H w.schema registry.cache inFlight
      w.session s) :
    ∃ registry', w.Follows H r registry (w.adopt r registry s) registry' ∧
      Session.Extends registry.cache registry'.cache s (w.adopt r registry s).session := by
  let w' := w.adopt r registry s
  obtain ⟨directory, hw'⟩ : ∃ directory, w'.registries =
      w.registries.setIfInBounds r { registry.publish s with directory } := ⟨_, rfl⟩
  let registry' : Registry := { registry.publish s with directory }
  have hcache : registry'.cache = registry.cache ++ s.staged :=
    registry.cache_publish hs.tracks.distinct
  have hworkshop : registry'.workshop r w.heap = registry.workshop r w.heap := rfl
  have hsession : w'.session = { s with staged := [] } := rfl
  obtain ⟨htracks, he⟩ := h.take hs hsession rfl hworkshop hcache
  refine ⟨registry', ⟨rfl, hs.tracks.schema, rfl, fun hr => ?_, htracks⟩, he⟩
  have hlt : r < w.registries.size := (Array.getElem?_eq_some_iff.mp hr).1
  show w'.registries[r]? = _
  rw [hw', Array.getElem?_setIfInBounds_self_of_lt hlt]

/-! ## One request -/

/-- At the beginning of a request exactly what is published is known. -/
theorem known?_session (w : World) : w.session.known? registry.cache t = registry.cached? t :=
  Option.or_none

theorem recalls_published (w : World) (r : RegistryId) (registry : Registry) :
    w.session.Recalls (registry.workshop r w.heap) w.schema registry.cache
      (fun t => (registry.cached? t).isSome) where
  knows ht := Option.isSome_iff_exists.mp (by rwa [known?_session])
  reports hd _ := .inl (by rw [← known?_session w, hd]; rfl)

/-- As long as the heap stays as it is, what has been reported can be reported. -/
theorem Tracks.recalls (h : w.Tracks (· = w.heap) r registry) :
    w.session.Recalls (registry.workshop r w.heap) w.schema registry.cache (fun _ => false) where
  knows ht := nomatch ht
  reports hd ha := by
    obtain ⟨x, h₀, -, rfl, hx⟩ := h.session.serves hd
    exact .inr (hx.reports ha)

theorem Tracks.undeclared (h : w.Tracks H r registry) (ht : ¬ w.schema.Declares t) :
    registry.cached? t = none ∧ w.schema.decl? t = none := by
  constructor
  · cases hc : registry.cached? t with
    | none => rfl
    | some d =>
      have hd : w.session.known? registry.cache t = some d := by
        rw [Session.known?, show registry.cache.lookup t = some d from hc, Option.some_or]
      obtain ⟨x, _, -, -, hx⟩ := h.session.serves hd
      exact absurd hx.declares ht
  · cases hd : w.schema.decl? t with
    | none => rfl
    | some d => exact absurd (Schema.declares_of_decl? hd) ht

section
variable {known : Ty → Bool}

/-- A search is answered as the search without memory says, and the session knows the type then. -/
theorem Tracks.find_answers (h : w.Tracks H r registry)
    (hk : w.session.Recalls (registry.workshop r w.heap) w.schema registry.cache known)
    (hc : registry.cached? t = none) :
    Answers ((registry.workshop r w.heap).verdict w.schema known
        ((registry.workshop r w.heap).ends w.schema) (w.schema.classes.size + 1) [] t)
      (fun a => Session.Grows (registry.workshop r w.heap) H w.schema registry.cache [] w.session a.2 ∧
        a.2.known? registry.cache t = some a.1)
      (registry.find (registry.workshop r w.heap) (w.schema.classes.size + 1) [] t w.session) := by
  by_cases ht : w.schema.Declares t
  · exact registry.find_answers h.closed h.provider h.within h.here h.session hk ht
      (.nil (Nat.le_refl _))
  · obtain ⟨-, hdecl⟩ := h.undeclared ht
    have hfind : registry.find (registry.workshop r w.heap) (w.schema.classes.size + 1) [] t
        w.session = .error (.notAClass (w.schema.name t)) := by
      have hlookup : (registry.cached? t).or (w.session.staged.lookup t) = none := by
        rw [hc]; rfl
      have hdecl : w.session.schema.decl? t = none := hdecl
      simp only [Registry.find, hlookup, hdecl]
      rfl
    have hnew : known t = false := by
      refine Bool.eq_false_iff.mpr fun hknown => ?_
      obtain ⟨d, hd⟩ := hk.knows hknown
      rw [known?_session, hc] at hd
      cases hd
    rw [hfind]
    refine .refused ?_
    simp only [Workshop.verdict, hdecl, hnew, Bool.false_eq_true, if_false]

/-- A request is answered as the search without memory says, by a descriptor that serves the type,
and the registry goes on tracking what it has published. -/
theorem Tracks.descriptorFor_answers (h : w.Tracks H r registry)
    (hk : w.session.Recalls (registry.workshop r w.heap) w.schema registry.cache known) (t : Ty) :
    Answers ((registry.workshop r w.heap).verdict w.schema known
        ((registry.workshop r w.heap).ends w.schema) (w.schema.classes.size + 1) [] t)
      (fun a => ∃ registry', w.Follows H r registry a.2 registry' ∧
        ∃ x h, a.2.descriptors[a.1]? = some x ∧ H h ∧
          x.Serves (registry.workshop r h) w.schema registry'.cache a.2.session t)
      (w.descriptorFor r registry t) := by
  have hchain : registry.provider.Chain w.schema (w.schema.classes.size + 1) [] t :=
    .nil (Nat.le_refl _)
  rw [descriptorFor]
  cases hc : registry.cached? t with
  | some d =>
    have hd : w.session.known? registry.cache t = some d := (known?_session w).trans hc
    exact .answered (hk.verdict h.session hd hchain) ⟨registry, h.refl, h.session.serves hd⟩
  | none =>
    refine (h.find_answers hk hc).followed fun _ => ?_
    rintro ⟨d, s⟩ ⟨hgrows, hknown⟩
    obtain ⟨registry', hfollows, he⟩ := h.adopt hgrows
    obtain ⟨x, h₀, hx, hh₀, hserves⟩ := hgrows.tracks.serves hknown
    exact ⟨_, rfl, registry', hfollows, x, h₀, hx, hh₀,
      hserves.mono h.closed h.provider (h.within hh₀) hgrows.tracks.schema he⟩

end

/-! ## Sequences of requests -/

/-- The world after a request. A request that is refused leaves it as it is. -/
def request (w : World) (r : RegistryId) (t : Ty) : World :=
  match w.registries[r]? with
  | none => w
  | some registry =>
    match w.descriptorFor r registry t with
    | .ok (_, w') => w'
    | .error _ => w

/-- The world after requests to one registry, one after the other. -/
def requestAll (w : World) (r : RegistryId) (ts : List Ty) : World :=
  ts.foldl (fun w t => w.request r t) w

theorem Follows.trans {w' w'' : World} {registry' registry'' : Registry}
    (h : w.Follows H r registry w' registry') (h' : w'.Follows H r registry' w'' registry'') :
    w.Follows H r registry w'' registry'' :=
  ⟨h'.heap.trans h.heap, h.schema.trans h'.schema, h'.workshop.trans h.workshop,
    fun hr => h'.registries (h.registries hr), h'.tracks⟩

theorem Tracks.request (h : w.Tracks H r registry) (hr : w.registries[r]? = some registry) (t : Ty) :
    ∃ registry', w.Follows H r registry (w.request r t) registry' := by
  have hanswers := h.descriptorFor_answers (recalls_published w r registry) t
  rw [World.request, hr]
  dsimp only
  cases hd : w.descriptorFor r registry t with
  | error e => exact ⟨registry, h.refl⟩
  | ok a =>
    rw [hd] at hanswers
    cases hanswers with
    | answered _ ha =>
      obtain ⟨registry', hfollows, -⟩ := ha
      exact ⟨registry', hfollows⟩

/-- After a sequence of requests the registry still tracks what it has published. -/
theorem requestAll_tracks (h : w.Tracks H r registry) (hr : w.registries[r]? = some registry)
    (ts : List Ty) : ∃ registry', w.Follows H r registry (w.requestAll r ts) registry' := by
  induction ts generalizing w registry with
  | nil => exact ⟨registry, h.refl⟩
  | cons t ts ih =>
    obtain ⟨registry₁, hfirst⟩ := h.request hr t
    obtain ⟨registry₂, hrest⟩ := ih hfirst.tracks (hfirst.registries hr)
    exact ⟨registry₂, hfirst.trans hrest⟩

/-! ## Main results -/

/-- Two requests end alike: both are refused for one reason, or both give a descriptor, and the
descriptors are alike. -/
inductive EndAlike : Except RequestError (DescriptorId × World) →
    Except RequestError (DescriptorId × World) → Prop
  | refused (e : RequestError) : EndAlike (.error e) (.error e)
  | answered {d₁ d₂ : DescriptorId} {w₁ w₂ : World} {x₁ x₂ : Descriptor}
      (h₁ : w₁.descriptors[d₁]? = some x₁) (h₂ : w₂.descriptors[d₂]? = some x₂)
      (h : x₁.Alike x₂) : EndAlike (.ok (d₁, w₁)) (.ok (d₂, w₂))

/-- Requests end alike in two worlds, one of which has grown from the other, if the registries agree
on the provider, the name infix and the listener. -/
theorem Tracks.endAlike {w₁ w₂ : World} {r₁ r₂ : RegistryId} {registry₁ registry₂ : Registry}
    (h₁ : w₁.Tracks (· = w₁.heap) r₁ registry₁) (h₂ : w₂.Tracks (· = w₂.heap) r₂ registry₂)
    (hworkshop : registry₂.workshop r₂ w₂.heap =
      { registry₁.workshop r₁ w₁.heap with registry := r₂ })
    (hschema : w₂.schema.Extends w₁.schema)
    (ht : w₁.schema.Declares t → w₂.schema.Declares t) :
    EndAlike (w₁.descriptorFor r₁ registry₁ t) (w₂.descriptorFor r₂ registry₂ t) := by
  have hprovider : registry₂.provider = registry₁.provider :=
    congrArg Workshop.provider hworkshop
  have hheap : w₂.heap = w₁.heap := congrArg Workshop.heap hworkshop
  have hp : (registry₁.workshop r₁ w₁.heap).provider.Within w₂.schema := by
    show registry₁.provider.Within w₂.schema
    rw [← hprovider]
    exact h₂.provider
  have hh : (registry₁.workshop r₁ w₁.heap).heap.Within w₂.schema := by
    intro o i ho
    exact h₂.within rfl (by rw [hheap]; exact ho)
  have hanswers₁ := h₁.descriptorFor_answers h₁.recalls t
  have hanswers₂ := h₂.descriptorFor_answers h₂.recalls t
  rw [hworkshop, Workshop.verdict_registry, Workshop.ends_registry] at hanswers₂
  generalize w₁.descriptorFor r₁ registry₁ t = y₁ at hanswers₁ ⊢
  generalize w₂.descriptorFor r₂ registry₂ t = y₂ at hanswers₂ ⊢
  by_cases hd : w₂.schema.Declares t
  · have hends := fun u (hu : w₂.schema.Declares u) (ha : w₂.schema.isAbstract u = true) =>
      Workshop.ends_eq hschema h₂.closed hp hu ha
    rw [Workshop.verdict_eq hschema h₂.closed hp hd hends (.nil (Nat.le_refl _))
      (.nil (Nat.add_le_add_right hschema.size_le 1))] at hanswers₁
    cases hanswers₁ with
    | refused hv₁ =>
      cases hanswers₂ with
      | refused hv₂ =>
        obtain rfl := Except.error.inj (hv₁.symm.trans hv₂)
        exact .refused _
      | answered hv₂ => rw [hv₁] at hv₂; cases hv₂
    | answered hv₁ ha₁ =>
      cases hanswers₂ with
      | refused hv₂ => rw [hv₁] at hv₂; cases hv₂
      | answered hv₂ ha₂ =>
        obtain ⟨registry₁', hf₁, x₁, _, hx₁, rfl, hs₁⟩ := ha₁
        obtain ⟨registry₂', hf₂, x₂, _, hx₂, rfl, hs₂⟩ := ha₂
        have hs₁ := (Descriptor.Serves.rebase hschema h₂.closed hp hd).mp hs₁
        rw [hworkshop] at hs₂
        exact .answered hx₁ hx₂
          (hs₁.alike h₂.closed hp hh (hschema.trans hf₁.schema) hf₂.schema hs₂)
  · obtain ⟨-, hd₁⟩ := h₁.undeclared fun hd₁ => hd (ht hd₁)
    obtain ⟨-, hd₂⟩ := h₂.undeclared hd
    simp only [Workshop.verdict, hd₁, Schema.name_of_not_declares fun hd₁ => hd (ht hd₁)]
      at hanswers₁
    simp only [Workshop.verdict, hd₂, Schema.name_of_not_declares hd] at hanswers₂
    cases hanswers₁ with
    | refused hv₁ =>
      cases hanswers₂ with
      | refused hv₂ =>
        obtain rfl := Except.error.inj (hv₁.symm.trans hv₂)
        exact .refused _
      | answered hv₂ => cases hv₂
    | answered hv₁ => cases hv₁

/-- A registry that has published nothing and reads what is attached to the properties. -/
def forestRegistry : Registry where
  provider := .attributes
  listener := .log
  hooks := {}
  options := {}
  directory := .missing

/-- The abstract property of the classes in `forest`. -/
def forestProperty (t : Ty) : PropertyDecl where
  name := "Inner"
  type := t
  getter := some .abstract
  setter := some .abstract

/-- A world with one registry, and with three classes: one that is not abstract, an abstract one
with a property of its type, and an abstract one with a property of its own type. -/
def forest : World where
  schema :=
    let leaf : ClassDecl := {
      name := "Forest.Leaf", bases := [], isAbstract := false, isValueType := false
      isSerializable := false, interfaces := [], allInterfaces := [], layout := [], ownStart := 0
      properties := [], constructors := [⟨[], true, .chain none⟩], statics := []
      receiver := none, owned := none }
    let node (name : String) (t : Ty) : ClassDecl :=
      { leaf with name, isAbstract := true, properties := [forestProperty t] }
    { classes := #[leaf, node "Forest.Tree" (.cls 0), node "Forest.Loop" (.cls 2)] }
  registries := #[forestRegistry]

theorem forest_heap_within : forest.heap.Within forest.schema := fun h => nomatch h

theorem forest_provider_within : Provider.attributes.Within forest.schema :=
  Provider.attributes_within (by decide)

/-- **Requests are independent of history.** After any sequence of requests to a registry, it
answers as a registry does that has published nothing and has the same provider, options and
listener: one that is asked in the same world, or one that was asked before the sequence. -/
theorem request_independent (w : World) (r : RegistryId) (registry : Registry)
    (hr : w.registries[r]? = some registry) (hS : w.schema.Closed) (hh : w.heap.Within w.schema)
    (hp : registry.provider.Within w.schema) (hfresh : registry.cache = []) (ts : List Ty) :
    ∃ registry', (w.requestAll r ts).registries[r]? = some registry' ∧
      ∀ (r' : RegistryId) (fresh : Registry) (t : Ty), fresh.cache = [] →
        fresh.provider = registry.provider → fresh.options = registry.options →
        fresh.listener = registry.listener →
        EndAlike ((w.requestAll r ts).descriptorFor r registry' t)
            ((w.requestAll r ts).descriptorFor r' fresh t) ∧
          (((w.requestAll r ts).schema.Declares t → w.schema.Declares t) →
            EndAlike ((w.requestAll r ts).descriptorFor r registry' t)
              (w.descriptorFor r' fresh t)) := by
  have h := tracks_of_fresh r hS hh hp hfresh
  obtain ⟨registry', hall⟩ := requestAll_tracks h hr ts
  have hworkshop : ∀ (r' : RegistryId) (fresh : Registry), fresh.provider = registry.provider →
      fresh.options = registry.options → fresh.listener = registry.listener →
      fresh.workshop r' w.heap =
        { registry'.workshop r (w.requestAll r ts).heap with registry := r' } := by
    intro r' fresh hprovider hoptions hlistener
    rw [hall.workshop]
    simp only [Registry.workshop, hprovider, hoptions, hlistener]
  refine ⟨registry', hall.registries hr, fun r' fresh t hcache hprovider hoptions hlistener => ?_⟩
  have hwork := hworkshop r' fresh hprovider hoptions hlistener
  have hwithin : fresh.provider.Within (w.requestAll r ts).schema := by
    rw [show fresh.provider = registry'.provider from congrArg Workshop.provider hwork]
    exact hall.tracks.provider
  have hthen : (w.requestAll r ts).Tracks (· = (w.requestAll r ts).heap) r registry' := by
    rw [hall.heap]
    exact hall.tracks
  have hnow := tracks_of_fresh r' hthen.closed (hthen.within rfl) hwithin hcache
  have hbefore := tracks_of_fresh r' hS hh (hprovider ▸ hp) hcache
  refine ⟨hthen.endAlike hnow ?_ (.refl _) id, fun ht =>
    hthen.endAlike hbefore hwork hall.schema ht⟩
  rw [← hwork, hall.heap]

/-- Refused and accepted requests before it make no difference to one for `Forest.Tree`. -/
theorem request_independent_forest :
    ∃ registry', (forest.requestAll 0 [.cls 2, .cls 0, .cls 2]).registries[0]? = some registry' ∧
      EndAlike ((forest.requestAll 0 [.cls 2, .cls 0, .cls 2]).descriptorFor 0 registry' (.cls 1))
        (forest.descriptorFor 0 forestRegistry (.cls 1)) := by
  obtain ⟨registry', hr, h⟩ := request_independent forest 0 forestRegistry rfl (by decide)
    forest_heap_within forest_provider_within rfl [.cls 2, .cls 0, .cls 2]
  exact ⟨registry', hr, (h 0 forestRegistry (.cls 1) rfl rfl rfl rfl).2 fun _ => by decide⟩

/-- **A registry accepts exactly the derivable types** for which its reports end: those of the type and of
all that it needs. A request for any other derivable type has no end. A type from which a circular need can
be reached is never accepted. -/
theorem request_accepts (w : World) (r : RegistryId) (registry : Registry) (hS : w.schema.Closed)
    (hh : w.heap.Within w.schema) (hp : registry.provider.Within w.schema)
    (hfresh : registry.cache = []) (t : Ty) :
    ((∃ d w', w.descriptorFor r registry t = .ok (d, w')) ↔
        registry.provider.Derivable w.heap w.schema t ∧
          ∀ u, ReflTransGen (registry.provider.Needs w.schema) t u → w.schema.isAbstract u = true →
            registry.provider.Reports w.heap w.schema u) ∧
      (registry.provider.Derivable w.heap w.schema t →
        ∀ u, ReflTransGen (registry.provider.Needs w.schema) t u → w.schema.isAbstract u = true →
          ¬registry.provider.Reports w.heap w.schema u →
          w.descriptorFor r registry t = .error .endless) ∧
      ∀ u, ReflTransGen (registry.provider.Needs w.schema) t u →
        TransGen (registry.provider.Needs w.schema) u u →
        ∀ d w', w.descriptorFor r registry t ≠ .ok (d, w') := by
  have h := tracks_of_fresh r hS hh hp hfresh
  have hchain : registry.provider.Chain w.schema (w.schema.classes.size + 1) [] t :=
    .nil (Nat.le_refl _)
  have hanswers := h.descriptorFor_answers h.recalls t
  have hiff : (∃ d w', w.descriptorFor r registry t = .ok (d, w')) ↔
      registry.provider.Derivable w.heap w.schema t ∧
        ∀ u, ReflTransGen (registry.provider.Needs w.schema) t u → w.schema.isAbstract u = true →
          registry.provider.Reports w.heap w.schema u := by
    have hok := hanswers.isOk_iff.trans (Workshop.verdict_eq_ok_iff (fun _ => rfl) hchain)
    simp only [Workshop.ends_eq_true_iff, Prod.exists] at hok
    exact hok
  refine ⟨hiff, fun ht u hreach hu hreport => ?_, fun u hreach hcycle d w' hok => ?_⟩
  · have ht : (registry.workshop r w.heap).provider.Derivable w.heap w.schema t := ht
    rcases Workshop.verdict_of_derivable ht hchain with hv | hv
    · obtain ⟨⟨d, w'⟩, hok⟩ := hanswers.isOk_iff.mpr hv
      exact absurd ((hiff.mp ⟨d, w', hok⟩).2 u hreach hu) hreport
    · exact hanswers.eq_error hv
  · exact (hiff.mp ⟨d, w', hok⟩).1.not_reaches_cycle hreach hcycle

/-- `Forest.Tree` is accepted, so it is derivable; `Forest.Loop`, which needs itself, is not accepted. -/
theorem request_accepts_forest :
    (∃ d w', forest.descriptorFor 0 forestRegistry (.cls 1) = .ok (d, w')) ∧
      forestRegistry.provider.Derivable forest.heap forest.schema (.cls 1) ∧
      ∀ d w', forest.descriptorFor 0 forestRegistry (.cls 2) ≠ .ok (d, w') := by
  have h := request_accepts forest 0 forestRegistry (by decide) forest_heap_within
    forest_provider_within rfl
  have htree : ∃ d w', forest.descriptorFor 0 forestRegistry (.cls 1) = .ok (d, w') := ⟨_, _, rfl⟩
  have hneeds : forestRegistry.provider.Needs forest.schema (.cls 2) (.cls 2) :=
    ⟨rfl, forestProperty (.cls 2), List.mem_cons_self, none, .declared rfl, rfl, rfl⟩
  exact ⟨htree, ((h (.cls 1)).1.mp htree).1, (h (.cls 2)).2.2 (.cls 2) .refl (.single hneeds)⟩

/-- The forest with a carrier that holds itself, which is a construction parameter in `Forest.Tree`. -/
def knot : World where
  schema := { classes := forest.schema.classes.modify 1 fun d =>
    { d with properties := [{ forestProperty (.cls 0) with attributes := [.parameters [.carrier 0]] }] } }
  registries := forest.registries
  heap := { carriers := #[some [.carrier 0]] }

/-- `Forest.Tree` is still derivable then, but the report of its implementation has no end. -/
theorem knot_has_no_end :
    forestRegistry.provider.Derivable knot.heap knot.schema (.cls 1) ∧
      knot.descriptorFor 0 forestRegistry (.cls 1) = .error .endless := by
  let m := forestRegistry.workshop 0 knot.heap
  have hverdict : m.verdict knot.schema (fun _ => false) (fun _ => true) 3 [] (.cls 1) = .ok () := rfl
  have hderivable : m.provider.Derivable m.heap knot.schema (.cls 1) :=
    Workshop.derivable_of_verdict (fun _ hu => absurd hu Bool.false_ne_true) hverdict
  exact ⟨hderivable, rfl⟩

end World

end RecordForge
