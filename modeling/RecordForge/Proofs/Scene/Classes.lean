import RecordForge.Proofs.Scene.Answers
import RecordForge.Proofs.Schema.Literals

/-!
# Where classes come from

Every class of a scene was declared by a draft or made by a registry: `Scene.Sorted`. A class of a
draft has no construction plans, and its constructors run constructors of earlier classes. A class
that a registry has made is the implementation of an earlier class, and its plans build instances of
earlier classes. So what constructors do is founded on the order of the classes.
-/

namespace RecordForge

/-! ## Classes of drafts -/

/-- A class records what it inherits, if it has a base: an earlier class. -/
def ClassDecl.Inherits (s : Schema) (c : ClassId) (d : ClassDecl) : Prop :=
  d.bases = [] ∧ d.allInterfaces = d.interfaces ∨
    ∃ b d', b < c ∧ s.class? b = some d' ∧ d.bases = b :: d'.bases ∧
      d.allInterfaces = d.interfaces ++ d'.allInterfaces

/-- The constructors of a class do what is written in them. Where that is to run a constructor of
another class, that is its base, an earlier class whose fields come first, and there are no
parameters. -/
structure ClassDecl.Written (s : Schema) (c : ClassId) (d : ClassDecl) : Prop where
  inherits : d.Inherits s c
  plans : ∀ ctor ∈ d.constructors, ∀ p, ctor.body ≠ .plan p
  chains : ∀ ctor ∈ d.constructors, ∀ t k, ctor.body = .chain (some (t, k)) →
    ∃ b d' ctor', t = .cls b ∧ b < c ∧ s.class? b = some d' ∧ d'.constructors[k]? = some ctor' ∧
      ctor'.params = [] ∧ d'.layout.length ≤ d.layout.length ∧ d.bases = b :: d'.bases

theorem ClassDecl.Written.mono {s s' : Schema} {c : ClassId} {d : ClassDecl} (h : d.Written s c)
    (he : s.Extends s') : d.Written s' c := by
  refine ⟨?_, h.plans, fun ctor hctor t k hbody => ?_⟩
  · rcases h.inherits with hroot | ⟨b, d', hb, hd', hrest⟩
    · exact .inl hroot
    · exact .inr ⟨b, d', hb, he.classes hd', hrest⟩
  · obtain ⟨b, d', ctor', rfl, hb, hd', hrest⟩ := h.chains ctor hctor t k hbody
    exact ⟨b, d', ctor', rfl, hb, he.classes hd', hrest⟩

/-- A constructor that is found has the number and the parameters that were asked for. -/
theorem Schema.findConstructor?_eq_some {s : Schema} {t : Ty} {params : List Ty} {k : Nat}
    {ctor : ConstructorDecl} (h : s.findConstructor? t params = some (k, ctor)) :
    (s.constructors t)[k]? = some ctor ∧ ctor.params = params := by
  obtain ⟨⟨ctor', k'⟩, hfind, he⟩ := Option.map_eq_some_iff.mp h
  obtain ⟨rfl, rfl⟩ := Prod.mk.inj he
  have hmem := List.mem_of_find?_eq_some hfind
  have hparams := List.find?_some hfind
  exact ⟨List.mem_zipIdx_iff_getElem?.mp hmem, eq_of_beq hparams⟩

/-- A class inherits from the base that its draft names. -/
theorem Schema.inherits_finish {s : Schema} {draft : ClassDraft} (h : s.offence? draft = none) :
    (s.finish draft).Inherits s s.classes.size := by
  cases hbase : draft.base with
  | none => exact .inl (by simp [Schema.finish, hbase])
  | some t =>
    obtain ⟨c, d', rfl, hlt, hd', -⟩ := Schema.base_of_offence? h hbase
    exact .inr ⟨c, d', hlt, hd', by simp [Schema.finish, hbase, hd'],
      by simp [Schema.finish, hbase, Schema.decl?, hd']⟩

/-- A class is written as its draft is. -/
theorem ClassDraft.IsWritten.finish {draft : ClassDraft} (h : draft.IsWritten) {s : Schema}
    (hoffence : s.offence? draft = none) : (s.finish draft).Written s s.classes.size := by
  have hctor : ∀ ctor ∈ draft.constructors s, .constructor ctor ∈ draft.members ∨
      ctor.body = .chain (draft.base.bind fun b => (s.defaultConstructor? b).map fun k => (b, k.1)) := by
    intro ctor hm
    obtain ⟨m, hm, hctor⟩ := List.mem_filterMap.mp hm
    cases m with
    | constructor c => exact .inl (Option.some.inj hctor ▸ hm)
    | defaultConstructor => exact .inr (Option.some.inj hctor ▸ rfl)
    | _ => cases hctor
  refine ⟨Schema.inherits_finish hoffence, fun ctor hm p hbody => ?_, fun ctor hm t k hbody => ?_⟩
  · rcases hctor ctor hm with hm | hchain
    · rcases h ctor hm with hb | ⟨r, hb⟩ | ⟨k, hb⟩ <;> rw [hb] at hbody <;> cases hbody
    · rw [hchain] at hbody
      cases hbody
  · rcases hctor ctor hm with hm | hchain
    · rcases h ctor hm with hb | ⟨r, hb⟩ | ⟨k, hb⟩ <;> rw [hb] at hbody <;> cases hbody
    · rw [hchain] at hbody
      obtain ⟨b, hbase, hb⟩ := Option.bind_eq_some_iff.mp (ConstructorBody.chain.inj hbody)
      obtain ⟨⟨k', ctor'⟩, hfind, he⟩ := Option.map_eq_some_iff.mp hb
      obtain ⟨rfl, rfl⟩ := Prod.mk.inj he
      obtain ⟨hget, hparams⟩ := Schema.findConstructor?_eq_some hfind
      obtain ⟨d', hd', -⟩ := Schema.mem_constructors hget
      obtain ⟨c, rfl, hlt⟩ := Schema.lt_size_of_decl? hd'
      have hclass : s.class? c = some d' := hd'
      have hget' : d'.constructors[k']? = some ctor' := by
        rw [Schema.constructors, hd'] at hget
        exact hget
      refine ⟨c, d', ctor', rfl, hlt, hd', hget', hparams, ?_, by simp [Schema.finish, hbase, hclass]⟩
      show d'.layout.length ≤ ((draft.base.bind s.decl?).elim [] ClassDecl.layout ++ _).length
      rw [hbase, Option.bind_some, hd', List.length_append]
      exact Nat.le_add_right ..

/-- A class that was declared by a draft, which was accepted by the schema as it was then. -/
def ClassDecl.Drafted (s : Schema) (c : ClassId) (d : ClassDecl) (draft : ClassDraft) : Prop :=
  ∃ s₀ : Schema, s₀.Extends s ∧ s₀.offence? draft = none ∧ c = s₀.classes.size ∧
    d = s₀.finish draft

theorem ClassDecl.Drafted.mono {s s' : Schema} {c : ClassId} {d : ClassDecl} {draft : ClassDraft}
    (h : d.Drafted s c draft) (he : s.Extends s') : d.Drafted s' c draft := by
  obtain ⟨s₀, hs₀, hoffence, hc, hd⟩ := h
  exact ⟨s₀, hs₀.trans he, hoffence, hc, hd⟩

theorem ClassDecl.Drafted.written {s : Schema} {c : ClassId} {d : ClassDecl} {draft : ClassDraft}
    (h : d.Drafted s c draft) (hwritten : draft.IsWritten) : d.Written s c := by
  obtain ⟨s₀, hs₀, hoffence, rfl, rfl⟩ := h
  exact (hwritten.finish hoffence).mono hs₀

/-! ## Classes of scenes -/

namespace Session

variable {w w' : Workshop} {S S' : Schema} {cache : List (Ty × DescriptorId)} {s : Session}
variable {c : ClassId} {d : ClassDecl}

/-- What a session has made can be said over a later schema, too. -/
theorem Makes.rebase (h : s.Makes w S cache c d) (hs : S.Extends S') (hS : S.Closed)
    (hp : w.provider.Within S) (hw : w'.provider = w.provider) : s.Makes w' S' cache c d := by
  obtain ⟨b, e, x, hb, ha, hk, hx, hpr, hn⟩ := h.known
  have hd : S.Declares (.cls b) := by
    obtain ⟨d, hd, -⟩ := Schema.exists_of_isAbstract ha
    exact Schema.declares_of_decl? hd
  refine ⟨h.concrete, h.below, b, e, x, hb, ?_, hk, hx, hpr, fun F hF => hn F ?_⟩
  · rw [Schema.isAbstract_eq hs hd, ha]
  · rw [hw] at hF
    exact hF.rebase hs hS hp hd

end Session

namespace Scene

variable {S S' : Scene} {r : RegistryId} {registry registry' : Registry} {e : Option Served}
variable {told : List Served} {w : World} {c : ClassId} {d : ClassDecl}

/-- A registry of a scene has made a class. -/
def Makes (S : Scene) (r : RegistryId) (registry : Registry) (c : ClassId) (d : ClassDecl) : Prop :=
  S.world.session.Makes (registry.workshop r S.world.heap) S.world.schema (S.entries r registry) c d

/-- Each class is written as a draft says, or made by a registry. -/
def Sorted (S : Scene) : Prop :=
  ∀ c d, S.world.schema.class? c = some d → d.Written S.world.schema c ∨
    ∃ r registry, S.world.registries[r]? = some registry ∧ S.Makes r registry c d

/-- The registries of a scene go on, and know no less of what they have made. -/
def Follows (S S' : Scene) : Prop :=
  ∀ r registry, S.world.registries[r]? = some registry →
    ∃ registry', S'.world.registries[r]? = some registry' ∧ registry'.provider = registry.provider ∧
      ∀ {t d}, S.world.session.known? (S.entries r registry) t = some d →
        S'.world.session.known? (S'.entries r registry') t = some d

/-- A class that was made stays one that was made. -/
theorem Makes.grow (h : S.Makes r registry c d) (hS : S.Sound)
    (hr : S.world.registries[r]? = some registry) (he : S.world.Evolves S'.world)
    (hprovider : registry'.provider = registry.provider)
    (hknown : ∀ {t d}, S.world.session.known? (S.entries r registry) t = some d →
      S'.world.session.known? (S'.entries r registry') t = some d) :
    S'.Makes r registry' c d := by
  have hextends : Session.Extends (S.entries r registry) (S'.entries r registry') S.world.session
      S'.world.session := ⟨he.schema, he.descriptors, he.lookups, hknown⟩
  exact (Session.Makes.mono hextends h).rebase he.schema hS.proper.closed
    (hS.registries hr).fits.within hprovider

theorem Sorted.grow (h : S.Sorted) (hS : S.Sound) (he : S.world.Evolves S'.world)
    (hf : S.Follows S') (hnew : ∀ {c d}, S'.world.schema.class? c = some d →
      S.world.schema.class? c = some d ∨ d.Written S'.world.schema c ∨
        ∃ r registry, S'.world.registries[r]? = some registry ∧ S'.Makes r registry c d) :
    S'.Sorted := by
  intro c d hc
  rcases hnew hc with hold | hwritten | hmade
  · rcases h c d hold with hwritten | ⟨r, registry, hr, hmakes⟩
    · exact .inl (hwritten.mono he.schema)
    · obtain ⟨registry', hr', hprovider, hknown⟩ := hf r registry hr
      exact .inr ⟨r, registry', hr', hmakes.grow hS hr he hprovider hknown⟩
  · exact .inl hwritten
  · exact .inr hmade

/-- Registries go on if each of them has the entries that it had. -/
theorem Follows.of_entries (h : ∀ r registry, S.world.registries[r]? = some registry →
    ∃ registry', S'.world.registries[r]? = some registry' ∧ registry'.provider = registry.provider ∧
      S'.entries r registry' = S.entries r registry) : S.Follows S' := by
  intro r registry hr
  obtain ⟨registry', hr', hprovider, hentries⟩ := h r registry hr
  refine ⟨registry', hr', hprovider, fun {t d} hd => ?_⟩
  rw [hentries]
  exact hd

/-- Registries that stay as they are go on. -/
theorem Follows.of_registries (hcommits : S'.commits = S.commits)
    (hregistries : S'.world.registries = S.world.registries) : S.Follows S' :=
  .of_entries fun _ registry hr =>
    ⟨registry, hregistries ▸ hr, rfl, by rw [entries, entries, hcommits]⟩

/-- A turn of one registry leaves the entries of the others as they are. -/
theorem Follows.of_turn {c : Option Commit}
    (hothers : ∀ r', r' ≠ r → w.registries[r']? = S.world.registries[r']?)
    (hr : ∀ registry, S.world.registries[r]? = some registry →
      ∃ registry', w.registries[r]? = some registry' ∧ registry'.provider = registry.provider ∧
        ∀ {t d}, S.world.session.known? (S.entries r registry) t = some d →
          w.session.known? ((S.turn r w c).entries r registry') t = some d) :
    S.Follows (S.turn r w c) := by
  intro r' registry hr'
  by_cases heq : r' = r
  · subst heq
    exact hr registry hr'
  · refine ⟨registry, (hothers r' heq).trans hr', rfl, fun {t d} hd => ?_⟩
    have hentries : (S.turn r w c).entries r' registry = S.entries r' registry := by
      rw [entries, entries, commits_turn_of_ne heq]
    rw [hentries]
    exact hd

/-- One registry changes, and has the descriptors that it had. -/
theorem Follows.of_modify {f : Registry → Registry} (hf : ∀ x : Registry, x.Resembles (f x))
    (hregistries : ∀ r', w.registries[r']? =
      if r = r' then (S.world.registries[r']?).map f else S.world.registries[r']?) :
    S.Follows { S with world := w } := by
  refine .of_entries fun r' x hx => ?_
  have hr' := hregistries r'
  rw [hx] at hr'
  by_cases heq : r = r'
  · rw [if_pos heq] at hr'
    exact ⟨f x, hr', (hf x).provider, by rw [entries, entries, (hf x).cache]⟩
  · rw [if_neg heq] at hr'
    exact ⟨x, hr', rfl, rfl⟩

/-- **Registries know no less after a step.** -/
theorem Step.follows (h : S.Sound) (hs : Step S e S') : S.Follows S' := by
  cases hs with
  | hit => exact .of_registries rfl rfl
  | refuse => exact .of_registries rfl rfl
  | @begin r registry t d s hr hfree hc hf =>
    have hat := h.registries hr
    obtain ⟨hgrows, -⟩ := hat.find_grows hfree hc hf
    obtain ⟨-, he⟩ := hat.begin_tracks hfree hgrows
    refine .of_turn (fun _ _ => rfl) fun x hx => ?_
    obtain rfl := Option.some.inj (hr.symm.trans hx)
    refine ⟨registry, hr, rfl, fun {u e} hu => ?_⟩
    have hentries : S.entries r registry = registry.cache := by
      rw [entries, hfree]
      exact List.append_nil _
    rw [hentries] at hu
    exact he.known (hgrows.extends'.known hu)
  | @count r t entry rest hc =>
    obtain ⟨-, -, hothers⟩ := S.world.count_frame r entry.2
    refine .of_turn hothers fun registry hr => ?_
    have hentry : entry ∈ S.entries r registry := by
      rw [entries, hc]
      simp
    obtain ⟨x, -, hx, -⟩ := (h.registries hr).serves hentry
    refine ⟨_, World.count_registry hr hx, rfl, fun {u e} hu => ?_⟩
    rw [entries, turn_commits]
    rw [entries, hc] at hu
    exact hu
  | @insert r t entry rest hc =>
    obtain ⟨-, -, hothers⟩ := S.world.insert_frame r entry
    refine .of_turn hothers fun registry hr => ?_
    have hr' := World.insert_registry hr ((h.registries hr).cached?_eq_none hc)
    refine ⟨_, hr', rfl, fun {u e} hu => ?_⟩
    have hentries : (S.turn r (S.world.insert r entry) (some ⟨t, rest, false⟩)).entries r
        { registry with cache := registry.cache ++ [entry] } = S.entries r registry := by
      rw [entries, entries, turn_commits, hc]
      exact List.append_assoc ..
    rw [hentries]
    exact hu
  | @finish r registry t counted hr hc =>
    refine .of_turn (fun _ _ => rfl) fun x hx => ⟨x, hx, rfl, fun {u e} hu => ?_⟩
    rw [entries, turn_commits]
    rw [entries, hc] at hu
    exact hu
  | note => exact .of_registries rfl rfl
  | work hw => exact .of_registries rfl hw.registries
  | declare => exact .of_registries rfl rfl
  | enumerate => exact .of_registries rfl rfl
  | openRegistry =>
    exact .of_entries fun _ registry hr =>
      ⟨registry, Session.getElem?_push_of_some hr, rfl, rfl⟩
  | map hr hm =>
    rcases mapperFor_registries hr hm with rfl | ⟨-, -, hregistries⟩
    · exact .of_registries rfl rfl
    · refine .of_modify ?_ hregistries
      exact fun _ => ⟨rfl, rfl, rfl, rfl, rfl⟩
  | dropRegistry r =>
    refine .of_modify (r := r) (f := fun x => { x with isAlive := false })
      (fun _ => ⟨rfl, rfl, rfl, rfl, rfl⟩) fun r' => ?_
    rw [World.dropRegistry, Array.getElem?_modify]

/-- A class that comes about by a step is declared by a draft, or made by the search with which a commit
begins. -/
theorem Step.brings (h : S.Sound) (hs : Step S e S') (hclass : S'.world.schema.class? c = some d) :
    S.world.schema.class? c = some d ∨
      (∃ draft, draft.IsWritten ∧ d.Drafted S'.world.schema c draft) ∨
        ∃ r registry t i s, S.world.registries[r]? = some registry ∧ S.commits r = none ∧
          registry.cached? t = none ∧
          registry.find (registry.workshop r S.world.heap) (S.world.schema.classes.size + 1) [] t
            S.world.session = .ok (i, s) ∧
          S' = S.turn r (S.world.take registry s) (some ⟨t, s.staged, false⟩) := by
  have he := (hs.evolves h).world
  have hsame : S'.world.schema = S.world.schema → S.world.schema.class? c = some d :=
    fun heq => heq ▸ hclass
  cases hs with
  | begin hr hfree hc hfind => exact .inr (.inr ⟨_, _, _, _, _, hr, hfree, hc, hfind, rfl⟩)
  | @declare draft c' schema hd hwritten =>
    obtain ⟨hoffence, hadd⟩ := Schema.declare_eq_ok_iff.mp hd
    obtain ⟨rfl, rfl⟩ := Prod.mk.inj hadd
    rcases Schema.class?_addClass_eq_some hclass with ⟨rfl, rfl⟩ | hold
    · exact .inr (.inl ⟨draft, hwritten, _, he.schema, hoffence, rfl, rfl⟩)
    · exact .inl hold
  | enumerate d => exact .inl hclass
  | count => exact .inl (hsame (congrArg Session.schema (S.world.count_frame _ _).1))
  | work hw => exact .inl (hsame hw.schema)
  | map hr hm =>
    rcases mapperFor_registries hr hm with rfl | ⟨hsession, -, -⟩
    · exact .inl hclass
    · exact .inl (hsame (congrArg Session.schema hsession))
  | _ => exact .inl (hsame rfl)

/-- **A class that comes about by a step** is declared by a draft, or made by a registry. -/
theorem Step.origin (h : S.Sound) (hs : Step S e S') (hclass : S'.world.schema.class? c = some d) :
    S.world.schema.class? c = some d ∨
      (∃ draft, draft.IsWritten ∧ d.Drafted S'.world.schema c draft) ∨
        ∃ r registry, S'.world.registries[r]? = some registry ∧ S'.Makes r registry c d := by
  have he := (hs.evolves h).world
  rcases hs.brings h hclass with hold | hdrafted | ⟨r, registry, t, i, s, hr, hfree, hc, hfind, rfl⟩
  · exact .inl hold
  · exact .inr (.inl hdrafted)
  · have hat := h.registries hr
    obtain ⟨hgrows, -⟩ := hat.find_grows hfree hc hfind
    rcases hgrows.made hclass with hold | hmakes
    · exact .inl hold
    · obtain ⟨-, hextends⟩ := hat.begin_tracks (t := t) hfree hgrows
      have hlater := Session.Makes.mono hextends hmakes
      exact .inr (.inr ⟨r, registry, hr,
        hlater.rebase he.schema h.proper.closed hat.fits.within rfl⟩)

/-- **Classes come from drafts and from registries only.** -/
theorem Step.sorted (h : S.Sound) (hsorted : S.Sorted) (hs : Step S e S') : S'.Sorted := by
  have he := (hs.evolves h).world
  refine hsorted.grow h he (hs.follows h) fun {c d} hclass => ?_
  rcases hs.origin h hclass with hold | ⟨draft, hwritten, hdrafted⟩ | hmakes
  · exact .inl hold
  · exact .inr (.inl (hdrafted.written hwritten))
  · exact .inr (.inr hmakes)

theorem Runs.sorted (h : S.Sound) (hsorted : S.Sorted) (hruns : Runs S told S') : S'.Sorted := by
  induction hruns with
  | refl => exact hsorted
  | tail hruns hs ih => exact hs.sorted (hruns.sound h) ih

/-- So it is in every scene that comes about from nothing. -/
theorem sorted_of_runs (hruns : Runs {} told S) : S.Sorted :=
  hruns.sorted sound_empty fun _ _ hc => nomatch hc

end Scene

end RecordForge
