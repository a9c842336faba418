import RecordForge.Proofs.Scene.Nesting
import RecordForge.Proofs.Synthesis.Reach
import RecordForge.Proofs.Synthesis.Walks

/-!
# Requests end

A request for a type ends, whatever the types need: it nests no deeper than there are abstract types to be
reached, and what would be done beyond that makes no difference (`World.Tracks.descriptorWith_eq`). It is
refused for a cycle only where a class needs itself.

What is needed in several ways is implemented once. A type that is known is not made again, and each class
that a session has made is the implementation of a type that it knows then
(`Session.Grows.implements_once`).
-/

namespace RecordForge

open Relation

/-! ## One class for each type -/

section
variable {w : Workshop} {H : Heap → Prop} {S : Schema} {cache : List (Ty × DescriptorId)}
variable {s s' : Session} {t u : Ty} {e : DescriptorId} {x : Descriptor} {c : ClassId}

/-- The class of an implementation is directly below the class that it implements. -/
theorem Implementation.base?_product {i : Implementation} {product : Ty} {b : ClassId}
    (ht : i.type = .cls b) (hp : s.schema.decl? product = some (i.decl S)) :
    s.schema.base? product = some i.type := by
  rw [Schema.base?, Schema.bases, hp, Option.elim_some, decl, ht]
  rfl

/-- The product of the descriptor of an abstract class is a class directly below it. -/
theorem Descriptor.Serves.exists_product (hx : x.Serves w S cache s t) (ha : S.isAbstract t = true) :
    x.isSynthesized = true ∧ ∃ k, x.product = .cls k ∧ k < s.schema.classes.size ∧
      s.schema.base? (.cls k) = some t := by
  obtain ⟨k, hk, hlt⟩ := hx.product ha
  cases hx with
  | concrete hd _ hcon => simp [Schema.isAbstract, hd, hcon] at ha
  | implemented hc _ _ hi hp _ hxe =>
    obtain ⟨b, rfl, -⟩ := Schema.lt_size_of_decl? hc
    refine ⟨by rw [hxe]; rfl, k, hk, hlt, ?_⟩
    rw [← hk, Implementation.base?_product hi.type hp, hi.type]

/-- A new class is the product of the descriptor of a type that is known, its base. -/
theorem Session.Grows.of_new (h : Session.Grows w H S cache [] s s') (hs : s.schema = S)
    (hbase : s'.schema.base? (.cls c) = some t) (hnew : S.classes.size ≤ c) :
    S.isAbstract t = true ∧ ∃ e x, s'.known? cache t = some e ∧ s'.descriptors[e]? = some x ∧
      x.product = .cls c := by
  obtain ⟨d, hd⟩ : ∃ d, s'.schema.decl? (.cls c) = some d := by
    refine Option.ne_none_iff_exists'.mp fun hnone => ?_
    simp [Schema.base?, Schema.bases, hnone] at hbase
  rcases h.made hd with hold | hmakes
  · exact absurd (Schema.lt_size_of_class? (hs ▸ hold)) (Nat.not_lt.mpr hnew)
  · obtain ⟨b, e, x, -, ha, he, hx, hp, -⟩ := hmakes.known
    obtain ⟨x', h₀, hx', -, hserves⟩ := h.tracks.serves he
    obtain rfl := Option.some.inj (hx'.symm.trans hx)
    obtain ⟨-, k, hk, -, hbase'⟩ := hserves.exists_product ha
    obtain rfl := Ty.cls.inj (hk.symm.trans hp)
    obtain rfl := Option.some.inj (hbase'.symm.trans hbase)
    exact ⟨ha, e, x', he, hx, hp⟩

/-- **Each type that becomes known is implemented once.** A type that was known before is not implemented
again. -/
theorem Session.Grows.implements_once (h : Session.Grows w H S cache [] s s') (hs : s.schema = S)
    (hst : s.Stages s') (htracks : s.Tracks w H S cache) (ha : S.isAbstract t = true)
    (he : s'.known? cache t = some e) :
    (s.known? cache t = none → ∃! c, S.classes.size ≤ c ∧ s'.schema.base? (.cls c) = some t) ∧
    (s.known? cache t ≠ none → ∀ c, S.classes.size ≤ c → s'.schema.base? (.cls c) ≠ some t) := by
  obtain ⟨x, h₀, hx, -, hserves⟩ := h.tracks.serves he
  obtain ⟨hsynth, k, hk, -, hbase⟩ := hserves.exists_product ha
  have hproduct : ∀ c, S.classes.size ≤ c → s'.schema.base? (.cls c) = some t → c = k := by
    intro c hc hb
    obtain ⟨-, e', x', he', hx', hp⟩ := h.of_new hs hb hc
    obtain rfl := Option.some.inj (he.symm.trans he')
    obtain rfl := Option.some.inj (hx.symm.trans hx')
    exact Ty.cls.inj (hp.symm.trans hk)
  constructor
  · intro hunknown
    refine ⟨k, ⟨?_, hbase⟩, fun c hc => hproduct c hc.1 hc.2⟩
    -- the entry of the type is one of the new ones
    obtain ⟨new, hnew, hspec⟩ := hst.staged
    have hlookup : new.lookup t = some e := by
      rw [Session.known?, Option.or_eq_none_iff] at hunknown
      rw [Session.known?, hunknown.1, Option.none_or, hnew, List.lookup_append, hunknown.2,
        Option.none_or] at he
      exact he
    obtain ⟨before, after, hmem, -⟩ := List.lookup_eq_some_iff.mp hlookup
    obtain ⟨y, hy, hclass⟩ := hspec (t, e) (by simp [hmem])
    obtain rfl := Option.some.inj (hx.symm.trans hy)
    obtain ⟨c, hc, hle⟩ := hclass hsynth
    obtain rfl := Ty.cls.inj (hk.symm.trans hc)
    exact hs ▸ hle
  · -- the product of a type that was known was there before
    intro hknown c hc hb
    obtain ⟨e', he'⟩ := Option.ne_none_iff_exists'.mp hknown
    obtain ⟨x₀, h₁, hx₀, -, hserves₀⟩ := htracks.serves he'
    obtain ⟨-, k', hk', hlt, -⟩ := hserves₀.exists_product ha
    obtain rfl := Option.some.inj ((h.extends'.known he').symm.trans he)
    obtain rfl := Option.some.inj ((hst.descriptors hx₀).symm.trans hx)
    obtain rfl := Ty.cls.inj (hk'.symm.trans hk)
    obtain rfl := hproduct c hc hb
    exact absurd (hs ▸ hlt) (Nat.not_lt.mpr hc)

end

/-! ## Requests -/

namespace World

variable {H : Heap → Prop} {w w' : World} {r : RegistryId} {registry : Registry} {t u : Ty}
variable {d : DescriptorId} {name : String}

/-- A request for which `beyond` answers when the search nests deeper than a number of levels. -/
def descriptorWith (w : World) (r : RegistryId) (registry : Registry) (beyond : List Ty → Request)
    (levels : Nat) (t : Ty) : Except RequestError (DescriptorId × World) :=
  match registry.cached? t with
  | some found => .ok (found, w)
  | none => do
    let (found, s) ← registry.searchWith (registry.workshop r w.heap) beyond levels [] t w.session
    return (found, w.adopt r registry s)

/-- **A request nests no deeper** than there are abstract types to be reached. -/
theorem Tracks.descriptorWith_eq (h : w.Tracks H r registry) (beyond : List Ty → Request) {n : Nat}
    (hn : (registry.provider.abstracts w.schema t).ncard < n) :
    w.descriptorWith r registry beyond n t = w.descriptorFor r registry t := by
  rw [descriptorWith, descriptorFor]
  cases hc : registry.cached? t with
  | some found => rfl
  | none =>
    have hsearch : registry.searchWith (registry.workshop r w.heap) beyond n [] t w.session =
        registry.find (registry.workshop r w.heap) (w.schema.classes.size + 1) [] t w.session := by
      by_cases ht : w.schema.Declares t
      · exact registry.searchWith_eq h.closed h.provider h.here h.within beyond h.session
          (recalls_published w r registry) ht
          (.nil (Nat.le_refl _)) (.nil hn)
      · -- a type that is not declared is refused at once
        obtain ⟨-, hdecl⟩ := h.undeclared ht
        have hdecl : w.session.schema.decl? t = none := hdecl
        obtain ⟨n, rfl⟩ := Nat.exists_eq_succ_of_ne_zero (Nat.ne_zero_of_lt hn)
        rw [Registry.searchWith, Registry.find_succ, Registry.level, Registry.level, hdecl]
    rw [hsearch]

/-- A request is refused for a cycle only where an abstract mapped class needs itself. -/
theorem Tracks.exists_cycle (h : w.Tracks H r registry)
    (he : w.descriptorFor r registry t = .error (.cyclicSynthesis name)) :
    ∃ u d, ReflTransGen (registry.provider.Needs w.schema) t u ∧ w.schema.decl? u = some d ∧
      registry.provider.isMapped u d = true ∧ d.isAbstract = true ∧ d.name = name ∧
        TransGen (registry.provider.Needs w.schema) u u := by
  have hanswers := h.descriptorFor_answers (recalls_published w r registry) t
  rw [he] at hanswers
  cases hanswers with
  | refused hverdict => exact Workshop.exists_cycle (.nil (Nat.le_refl _)) hverdict

/-- A request without an end comes to an abstract class that is not published, and whose report has no
end. -/
theorem Tracks.exists_endless (h : w.Tracks H r registry)
    (he : w.descriptorFor r registry t = .error .endless) :
    ∃ u, ReflTransGen (registry.provider.Needs w.schema) t u ∧ registry.cached? u = none ∧
      w.schema.isAbstract u = true ∧ ¬registry.provider.Reports w.heap w.schema u := by
  have hanswers := h.descriptorFor_answers (recalls_published w r registry) t
  rw [he] at hanswers
  cases hanswers with
  | refused hverdict =>
    obtain ⟨u, hu, hnew, ha, hends⟩ := Workshop.exists_endless (.nil (Nat.le_refl _)) hverdict
    refine ⟨u, hu, by simpa using hnew, ha, fun hreports => ?_⟩
    rw [Workshop.ends_eq_true_iff.mpr hreports] at hends
    cases hends

/-- A request that comes to such a class is not answered. -/
theorem Tracks.reports (h : w.Tracks H r registry) (hok : w.descriptorFor r registry t = .ok (d, w'))
    (hu : ReflTransGen (registry.provider.Needs w.schema) t u) (ha : w.schema.isAbstract u = true)
    (hnew : registry.cached? u = none) : registry.provider.Reports w.heap w.schema u := by
  have hanswers := h.descriptorFor_answers (recalls_published w r registry) t
  rw [hok] at hanswers
  have hpublished : ∀ {u F}, (registry.cached? u).isSome = true →
      registry.provider.Needs w.schema u F → (registry.cached? F).isSome = true := by
    intro u F hu hn
    obtain ⟨e, he⟩ := Option.isSome_iff_exists.mp hu
    obtain ⟨e', he'⟩ := h.session.known_of_needs ((known?_session w).trans he) (.single hn)
    rw [← known?_session w, he']
    rfl
  cases hanswers with
  | answered hverdict _ =>
    rcases Workshop.ends_of_verdict hpublished hverdict hu ha with hknown | hends
    · rw [hnew] at hknown
      cases hknown
    · exact Workshop.ends_eq_true_iff.mp hends

/-- What a type needs is published with it. Each abstract class of it has been implemented once, during
the request if it was not known before. -/
theorem Tracks.implements (h : w.Tracks H r registry) (hr : w.registries[r]? = some registry)
    (hok : w.descriptorFor r registry t = .ok (d, w'))
    (hu : ReflTransGen (registry.provider.Needs w.schema) t u) (ha : w.schema.isAbstract u = true) :
    (∃ registry' e, w'.registries[r]? = some registry' ∧ registry'.cached? u = some e) ∧
    (registry.cached? u = none →
      ∃! c, w.schema.classes.size ≤ c ∧ w'.schema.base? (.cls c) = some u) ∧
    (registry.cached? u ≠ none →
      ∀ c, w.schema.classes.size ≤ c → w'.schema.base? (.cls c) ≠ some u) := by
  rw [descriptorFor] at hok
  cases hc : registry.cached? t with
  | some found =>
    rw [hc] at hok
    cases hok
    obtain ⟨e, he⟩ := h.session.known_of_needs ((known?_session w).trans hc) hu
    rw [known?_session] at he
    refine ⟨⟨registry, e, hr, he⟩, fun hno => ?_, fun _ c hle hb => ?_⟩
    · rw [hno] at he
      cases he
    · have hnone : w.schema.decl? (.cls c) = none := Array.getElem?_eq_none hle
      simp [Schema.base?, Schema.bases, hnone] at hb
  | none =>
    rw [hc] at hok
    obtain ⟨⟨found, s⟩, hfind, hadopt⟩ := RequestError.bind_eq_ok_iff.mp hok
    cases hadopt
    have hanswers := h.find_answers (recalls_published w r registry) hc
    rw [hfind] at hanswers
    cases hanswers with
    | answered _ hgrows =>
      obtain ⟨hgrows, ht⟩ := hgrows
      obtain ⟨e, he⟩ := hgrows.tracks.known_of_needs ht hu
      have honce := hgrows.implements_once rfl (registry.find_stages _ _ _ hfind) h.session ha he
      rw [known?_session] at honce
      obtain ⟨registry', hfollows, hextends⟩ := h.adopt hgrows
      have hcached := (known?_session _).symm.trans (hextends.known he)
      exact ⟨⟨registry', e, hfollows.registries hr, hcached⟩, honce⟩

end World

namespace Scene

/-- **Requests end.** In each scene that comes about, there are finitely many abstract types that can be
reached from a type through the types of properties and their replacements, and a request for the type
nests no deeper than their number, whatever would be done beyond. It is refused for a cycle only if an
abstract mapped class that it needs, of the name that is told, needs itself through fields of abstract
mapped classes; so without such a class it never is. If it is answered then each abstract class that is
needed, in however many ways, is published, and has been implemented once, unless it was published
before.

A request has no end only if it comes to an abstract class that is not published, and that has a
construction parameter whose text has no end; and no request that comes to such a class is answered. -/
theorem requests_end {S : Scene} {told : List Served} (hruns : Runs {} told S) {r : RegistryId}
    {registry : Registry} (hr : S.world.registries[r]? = some registry) (hfree : S.commits r = none)
    (t : Ty) :
    (registry.provider.abstracts S.world.schema t).Finite ∧
    (∀ beyond n, (registry.provider.abstracts S.world.schema t).ncard < n →
      S.world.descriptorWith r registry beyond n t = S.world.descriptorFor r registry t) ∧
    (∀ name, S.world.descriptorFor r registry t = .error (.cyclicSynthesis name) →
      ∃ u d, ReflTransGen (registry.provider.Needs S.world.schema) t u ∧
        S.world.schema.decl? u = some d ∧ registry.provider.isMapped u d = true ∧
        d.isAbstract = true ∧ d.name = name ∧
        TransGen (registry.provider.Needs S.world.schema) u u) ∧
    ((∀ u, ReflTransGen (registry.provider.Needs S.world.schema) t u →
        ¬TransGen (registry.provider.Needs S.world.schema) u u) →
      ∀ name, S.world.descriptorFor r registry t ≠ .error (.cyclicSynthesis name)) ∧
    (S.world.descriptorFor r registry t = .error .endless →
      ∃ u, ReflTransGen (registry.provider.Needs S.world.schema) t u ∧ registry.cached? u = none ∧
        S.world.schema.isAbstract u = true ∧
        ¬registry.provider.Reports S.world.heap S.world.schema u) ∧
    ∀ d w', S.world.descriptorFor r registry t = .ok (d, w') →
      ∀ u, ReflTransGen (registry.provider.Needs S.world.schema) t u →
        S.world.schema.isAbstract u = true →
        (registry.cached? u = none → registry.provider.Reports S.world.heap S.world.schema u) ∧
        (∃ registry' e, w'.registries[r]? = some registry' ∧ registry'.cached? u = some e) ∧
        (registry.cached? u = none →
          ∃! c, S.world.schema.classes.size ≤ c ∧ w'.schema.base? (.cls c) = some u) ∧
        (registry.cached? u ≠ none →
          ∀ c, S.world.schema.classes.size ≤ c → w'.schema.base? (.cls c) ≠ some u) := by
  have htracks : S.world.Tracks (·.Grows S.world.heap) r registry := by
    have hsettled := ((sound_of_runs hruns).registries hr).tracks
    rwa [settled_of_free hfree] at hsettled
  refine ⟨Provider.finite_abstracts, fun beyond n hn => htracks.descriptorWith_eq beyond hn,
    fun name he => htracks.exists_cycle he, fun hacyclic name he => ?_,
    fun he => htracks.exists_endless he, fun d w' hok u hu ha =>
      ⟨htracks.reports hok hu ha, htracks.implements hr hok hu ha⟩⟩
  obtain ⟨u, d, hu, -, -, -, -, hcycle⟩ := htracks.exists_cycle he
  exact hacyclic u hu hcycle

/-- Drafts of an abstract class without properties, of two abstract classes that have one each, of one
that has these two, and of one that has itself. -/
def weirDrafts : List ClassDraft :=
  let holder (name : String) (properties : List (String × Ty)) : ClassDraft :=
    { name, isAbstract := true
      members := .defaultConstructor :: properties.map fun (name, t) =>
        .property { World.forestProperty t with name } }
  [holder "Weir.Gate" [], holder "Weir.Left" [("Gate", .cls 0)],
    holder "Weir.Right" [("Gate", .cls 0)],
    holder "Weir.Dam" [("Left", .cls 1), ("Right", .cls 2)], holder "Weir.Eddy" [("Eddy", .cls 4)]]

theorem weir_runs : Runs {} [] (opened weirDrafts) :=
  opened_runs (by decide +kernel) (by decide +kernel) (by decide +kernel)

/-- `Weir.Dam` needs `Weir.Gate` in two ways. The gate is implemented once, and no more than five levels
are used. `Weir.Eddy` needs itself. -/
theorem requests_end_weir :
    (∀ beyond, (opened weirDrafts).world.descriptorWith 0 World.forestRegistry beyond 6 (.cls 3) =
      (opened weirDrafts).world.descriptorFor 0 World.forestRegistry (.cls 3)) ∧
    (∃ d w', (opened weirDrafts).world.descriptorFor 0 World.forestRegistry (.cls 3) = .ok (d, w') ∧
      ∃! c, 5 ≤ c ∧ w'.schema.base? (.cls c) = some (.cls 0)) ∧
    (opened weirDrafts).world.descriptorFor 0 World.forestRegistry (.cls 4) =
        .error (.cyclicSynthesis "Weir.Eddy") ∧
      ∃ u d, (opened weirDrafts).world.schema.decl? u = some d ∧ d.name = "Weir.Eddy" ∧
        TransGen (Provider.attributes.Needs (opened weirDrafts).world.schema) u u := by
  have hforest : (opened weirDrafts).world.registries[0]? = some World.forestRegistry := rfl
  obtain ⟨-, hdepth, -, -, -, honce⟩ := requests_end weir_runs hforest rfl (.cls 3)
  obtain ⟨-, -, hcycle, -, -, -⟩ := requests_end weir_runs hforest rfl (.cls 4)
  have heddy : (opened weirDrafts).world.descriptorFor 0 World.forestRegistry (.cls 4) =
      .error (.cyclicSynthesis "Weir.Eddy") := rfl
  have hgate : ReflTransGen (Provider.attributes.Needs (opened weirDrafts).world.schema) (.cls 3)
      (.cls 0) := by
    refine (ReflTransGen.single (b := .cls 1) ?_).tail ?_
    · exact ⟨rfl, { World.forestProperty (.cls 1) with name := "Left" }, List.mem_cons_self, none,
        .declared rfl, rfl, rfl⟩
    · exact ⟨rfl, { World.forestProperty (.cls 0) with name := "Gate" }, List.mem_cons_self, none,
        .declared rfl, rfl, rfl⟩
  refine ⟨fun beyond => hdepth beyond 6 (Nat.lt_succ_of_le Provider.ncard_abstracts_le), ?_, heddy, ?_⟩
  · obtain ⟨d, w', hok⟩ : ∃ d w', (opened weirDrafts).world.descriptorFor 0 World.forestRegistry
        (.cls 3) = .ok (d, w') := ⟨_, _, rfl⟩
    exact ⟨d, w', hok, (honce d w' hok (.cls 0) hgate rfl).2.2.1 rfl⟩
  · obtain ⟨u, d, -, hu, -, -, hname, hself⟩ := hcycle _ heddy
    exact ⟨u, d, hu, hname, hself⟩

/-- Drafts of a class that is not abstract, and of an abstract one with a property of its type, for which
there is a carrier as construction parameter. -/
def whirlDrafts : List ClassDraft :=
  [{ name := "Whirl.Drop", members := [.defaultConstructor] },
    { name := "Whirl.Pool", isAbstract := true
      members := [.property { World.forestProperty (.cls 0) with
        attributes := [.parameters [.carrier 0]] }, .defaultConstructor] }]

/-- The scene in which the carrier holds itself. -/
def whirl : Scene :=
  ⟨{ (opened whirlDrafts).world with heap := { carriers := #[some [.carrier 0]] } }, fun _ => none⟩

theorem whirl_runs : Runs {} [] whirl := by
  have hdeclare : CanDeclare {} whirlDrafts := by decide +kernel
  let w : World := { schema := addDrafts {} whirlDrafts }
  have hgrows : w.heap.Grows whirl.world.heap :=
    (Heap.newCarrier_grows _).trans (Heap.setParameters_grows _ 0 (some [.carrier 0]))
  have hworks : w.Works { w with heap := whirl.world.heap } :=
    ⟨rfl, rfl, rfl, rfl, hgrows, fun ho => by cases ho⟩
  have hfits : Provider.attributes.Fits { w with heap := whirl.world.heap } :=
    attributes_fits (by decide) (by decide)
  exact ((declare_runs hdeclare).tail (.work hworks)).tail (.openRegistry rfl rfl hfits)

/-- `Whirl.Pool` needs no other class. Still a request for it has no end. -/
theorem whirl_has_no_end : Runs {} [] whirl ∧
    (∀ F, ¬Provider.attributes.Needs whirl.world.schema (.cls 1) F) ∧
    whirl.world.descriptorFor 0 World.forestRegistry (.cls 1) = .error .endless := by
  refine ⟨whirl_runs, ?_, rfl⟩
  rintro F ⟨-, q, hq, m, hc, -, ha⟩
  obtain rfl := List.mem_singleton.mp hq
  cases hc with
  | declared => cases ha
  | @replaced before after _ _ hoverrides =>
    have hnone : before ++ F :: after = [] := hoverrides.symm
    simp at hnone

end Scene

end RecordForge
