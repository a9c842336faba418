import Mathlib.Logic.Function.Basic
import RecordForge.Proofs.Synthesis.Evolution
import RecordForge.Schema.Draft

/-!
# Scenes

Many callers may use a world at the same time. A registry serves one search after the other, but what
is published can be read at any time, also while a search is being published: descriptor by
descriptor, each of which is first counted and then inserted.

A `Scene` is a moment of that: a world, and for each registry what it is about to publish. Scenes
change by `Scene.Step`s, in any order. A step may show what a caller is told (`Served`). Serving one
request without interruption is a run of such steps: `Scene.serves`.
-/

namespace RecordForge

/-! ## Publishing, one descriptor after the other -/

/-- Inserts a descriptor, unless its type has one already. -/
def Registry.insert (r : Registry) (entry : Ty × DescriptorId) : Registry :=
  if (r.cached? entry.1).isSome then r else { r with cache := r.cache ++ [entry] }

namespace World

variable (w : World)

/-- Takes over what a session has made. None of it is published yet. -/
def take (registry : Registry) (s : Session) : World :=
  let w := { w with schema := s.schema, descriptors := s.descriptors, lookups := s.lookups }
  let made := s.staged.filterMap fun (_, d) => s.descriptors[d]?
  let warnings :=
    if registry.options.warns then
      (made.filter fun d => !d.isSynthesized).flatMap w.unavailableWarnings
    else []
  { w with events := warnings.reverse ++ w.events }

/-- A registry that has counted a descriptor, and the events of that. An implementation adds one to
the number of implementations, and its report is written. -/
def tally (registry : Registry) (x : Descriptor) : Registry × List Event :=
  if x.isSynthesized then
    let (directory, failures) :=
      if registry.directory.isWanted then w.writeReport registry.directory x
      else (registry.directory, [])
    ({ registry with synthesized := registry.synthesized + 1, directory }, failures)
  else (registry, [])

/-- Counts a descriptor that a registry is about to insert. -/
def count (r : RegistryId) (d : DescriptorId) : World :=
  match w.registries[r]?, w.descriptors[d]? with
  | some registry, some x =>
    let (registry, failures) := w.tally registry x
    { w with
      registries := w.registries.setIfInBounds r registry
      events := failures.reverse ++ w.events }
  | _, _ => w

/-- Inserts a descriptor into a registry. -/
def insert (r : RegistryId) (entry : Ty × DescriptorId) : World :=
  { w with registries := w.registries.modify r (·.insert entry) }

/-- Counts and inserts descriptors, in order. -/
def commit (r : RegistryId) (entries : List (Ty × DescriptorId)) : World :=
  entries.foldl (fun w entry => (w.count r entry.2).insert r entry) w

end World

/-! ## Scenes and their steps -/

/-- What a registry is about to publish: for the type that was asked for, the descriptors that are
still to be inserted, and whether the first of them has been counted. -/
structure Commit where
  asked : Ty
  rest : List (Ty × DescriptorId)
  counted : Bool

/-- A world, and what its registries are about to publish. -/
structure Scene where
  world : World := {}
  commits : RegistryId → Option Commit := fun _ => none

/-- What a caller is told: the answer of a registry for a type. -/
structure Served where
  registry : RegistryId
  type : Ty
  answer : Except RequestError DescriptorId

/-- What a registry that has ended a commit answers. -/
def World.published (w : World) (registry : Registry) (t : Ty) : Except RequestError DescriptorId :=
  match registry.cached? t with
  | some d => .ok d
  | none => .error (.notMapped (w.schema.name t))

/-- The constructors of a draft are written out: they do not run constructors of other classes, apart
from what their routines do, and are no construction plans. -/
def ClassDraft.IsWritten (d : ClassDraft) : Prop :=
  ∀ c, .constructor c ∈ d.members → c.body = .chain none ∨ (∃ r, c.body = .routine r) ∨
    ∃ k, c.body = .wrapped k

def ConstructorBody.isWritten : ConstructorBody → Bool
  | .chain none | .routine _ | .wrapped _ => true
  | .chain (some _) | .plan _ => false

theorem ConstructorBody.isWritten_iff {b : ConstructorBody} : b.isWritten = true ↔
    b = .chain none ∨ (∃ r, b = .routine r) ∨ ∃ k, b = .wrapped k := by
  cases b with
  | chain base => cases base <;> simp [isWritten]
  | _ => simp [isWritten]

def MemberDraft.isWritten : MemberDraft → Bool
  | .constructor c => c.body.isWritten
  | _ => true

theorem ClassDraft.isWritten_iff {d : ClassDraft} :
    (∀ m ∈ d.members, m.isWritten = true) ↔ d.IsWritten := by
  constructor
  · exact fun h c hc => ConstructorBody.isWritten_iff.mp (h _ hc)
  · intro h m hm
    cases m with
    | constructor c => exact ConstructorBody.isWritten_iff.mpr (h c hm)
    | _ => rfl

instance (d : ClassDraft) : Decidable d.IsWritten := decidable_of_iff _ d.isWritten_iff

/-- What bodies do to a world, apart from what they have lookups find: the heap grows by objects of
declared classes, and what the registries know stays as it is. -/
structure World.Works (w w' : World) : Prop where
  schema : w'.schema = w.schema
  descriptors : w'.descriptors = w.descriptors
  lookups : w'.lookups = w.lookups
  registries : w'.registries = w.registries
  heap : w.heap.Grows w'.heap
  within : w'.heap.Within w'.schema

/-- Types and parameters that a provider gives are there. -/
structure Provider.Fits (p : Provider) (w : World) : Prop where
  within : p.Within w.schema
  given : p.Given w.heap w.schema

namespace Scene

/-- A scene in which a registry has gone on to another part of a commit, or has ended it. -/
def turn (S : Scene) (r : RegistryId) (w : World) (c : Option Commit) : Scene :=
  ⟨w, Function.update S.commits r c⟩

/-- One step, and what is told to a caller by it. -/
inductive Step : Scene → Option Served → Scene → Prop
  /-- A caller finds a published descriptor. -/
  | hit {S : Scene} {r : RegistryId} {registry : Registry} {t : Ty} {d : DescriptorId}
      (hr : S.world.registries[r]? = some registry) (hc : registry.cached? t = some d) :
      Step S (some ⟨r, t, .ok d⟩) S
  /-- A search is refused. One that has no end is taken for refused, as `endless`: the scene stays as it
  is, and nothing else is told to its caller. -/
  | refuse {S : Scene} {r : RegistryId} {registry : Registry} {t : Ty} {e : RequestError}
      (hr : S.world.registries[r]? = some registry) (hfree : S.commits r = none)
      (h : S.world.descriptorFor r registry t = .error e) : Step S (some ⟨r, t, .error e⟩) S
  /-- A search has succeeded, and a commit begins. -/
  | begin {S : Scene} {r : RegistryId} {registry : Registry} {t : Ty} {d : DescriptorId} {s : Session}
      (hr : S.world.registries[r]? = some registry) (hfree : S.commits r = none)
      (hc : registry.cached? t = none)
      (h : registry.find (registry.workshop r S.world.heap) (S.world.schema.classes.size + 1) [] t
        S.world.session = .ok (d, s)) :
      Step S none (S.turn r (S.world.take registry s) (some ⟨t, s.staged, false⟩))
  /-- The next descriptor is counted. -/
  | count {S : Scene} {r : RegistryId} {t : Ty} {entry : Ty × DescriptorId}
      {rest : List (Ty × DescriptorId)} (hc : S.commits r = some ⟨t, entry :: rest, false⟩) :
      Step S none (S.turn r (S.world.count r entry.2) (some ⟨t, entry :: rest, true⟩))
  /-- The descriptor that was counted is inserted. -/
  | insert {S : Scene} {r : RegistryId} {t : Ty} {entry : Ty × DescriptorId}
      {rest : List (Ty × DescriptorId)} (hc : S.commits r = some ⟨t, entry :: rest, true⟩) :
      Step S none (S.turn r (S.world.insert r entry) (some ⟨t, rest, false⟩))
  /-- A commit is over, and the caller is told. -/
  | finish {S : Scene} {r : RegistryId} {registry : Registry} {t : Ty} {counted : Bool}
      (hr : S.world.registries[r]? = some registry) (hc : S.commits r = some ⟨t, [], counted⟩) :
      Step S (some ⟨r, t, S.world.published registry t⟩) (S.turn r S.world none)
  /-- A lookup keeps the descriptor that it has found. -/
  | note {S : Scene} {l : LookupId} {lookup : Lookup} {registry : Registry} {d : DescriptorId}
      (hl : S.world.lookups[l]? = some lookup)
      (hr : S.world.registries[lookup.registry]? = some registry)
      (hc : registry.cached? lookup.fieldType = some d) :
      Step S none { S with world := { S.world with
        lookups := S.world.lookups.setIfInBounds l { lookup with found := some d } } }
  /-- Bodies run. -/
  | work {S : Scene} {w : World} (h : S.world.Works w) : Step S none { S with world := w }
  /-- A class is declared. It mentions what is declared, and the providers of all registries can
  answer for it. -/
  | declare {S : Scene} {draft : ClassDraft} {c : ClassId} {schema : Schema}
      (h : S.world.schema.declare draft = .ok (c, schema)) (hwritten : draft.IsWritten)
      (hcovers : schema.Covers (S.world.schema.finish draft))
      (hfits : ∀ (r : RegistryId) registry, S.world.registries[r]? = some registry →
        registry.provider.Fits { S.world with schema }) :
      Step S none { S with world := { S.world with schema } }
  /-- An enumeration is declared. -/
  | enumerate {S : Scene} (d : EnumDecl) :
      Step S none { S with world := { S.world with schema := (S.world.schema.addEnum d).2 } }
  /-- A registry is there that has published nothing yet. -/
  | openRegistry {S : Scene} {registry : Registry} (hcache : registry.cache = [])
      (hcount : registry.synthesized = 0) (hfits : registry.provider.Fits S.world) :
      Step S none { S with world := { S.world with
        registries := S.world.registries.push registry } }
  /-- A member mapper is made. -/
  | map {S : Scene} {r : RegistryId} {registry : Registry} {request : MemberMapper.Request}
      {m : MapperId} {w : World} (hr : S.world.registries[r]? = some registry)
      (h : S.world.mapperFor r registry request = .ok (m, w)) : Step S none { S with world := w }
  /-- A registry answers no more. -/
  | dropRegistry {S : Scene} (r : RegistryId) :
      Step S none { S with world := S.world.dropRegistry r }

/-- Steps, one after the other, and what is told to callers by them. -/
inductive Runs : Scene → List Served → Scene → Prop
  | refl (S : Scene) : Runs S [] S
  | tail {S S' S'' : Scene} {told : List Served} {e : Option Served} (h : Runs S told S')
      (hs : Step S' e S'') : Runs S (told ++ e.toList) S''

variable {S S' S'' : Scene} {told told' : List Served} {e : Option Served}

theorem Runs.single (h : Step S e S') : Runs S e.toList S' := (Runs.refl S).tail h

theorem Runs.trans (h : Runs S told S') (h' : Runs S' told' S'') :
    Runs S (told ++ told') S'' := by
  induction h' with
  | refl => rwa [List.append_nil]
  | tail _ hs ih =>
    rw [← List.append_assoc]
    exact ih.tail hs

end Scene

/-! ## Publishing without interruption -/

namespace World

variable {w w' : World} {r : RegistryId} {registry : Registry}

theorem writeReport_congr (h : w'.schema = w.schema) : w'.writeReport = w.writeReport := by
  funext directory d
  simp only [writeReport, h]

theorem writeReports_congr (h : w'.schema = w.schema) : w'.writeReports = w.writeReports := by
  funext directory ds
  induction ds generalizing directory with
  | nil => rfl
  | cons d ds ih => simp only [writeReports, writeReport_congr h, ih]

/-- Directories stay wanted or unwanted. -/
theorem isWanted_writeReport (directory : Directory) (d : Descriptor) :
    (w.writeReport directory d).1.isWanted = directory.isWanted := by
  rw [writeReport]
  split
  · rfl
  · next name text _ =>
    cases directory with
    | missing => rfl
    | blocked => rfl
    | writable files =>
      by_cases hname : Directory.isFileName name = true <;> simp [Directory.write, hname, Directory.isWanted]

/-- The part of a registry and of the events that reports are written for. -/
def reports (w : World) (directory : Directory) (made : List Descriptor) :
    Directory × List Event :=
  if directory.isWanted then w.writeReports directory made else (directory, [])

theorem reports_congr (h : w'.schema = w.schema) : w'.reports = w.reports := by
  funext directory made
  simp only [reports, writeReports_congr h]

/-- A descriptor that is counted has its report written, if it has one. -/
theorem tally_eq (registry : Registry) (x : Descriptor) :
    w.tally registry x =
      ({ registry with
          synthesized := registry.synthesized + if x.isSynthesized then 1 else 0
          directory := (w.reports registry.directory [x]).1 },
        (w.reports registry.directory [x]).2) := by
  rw [tally, reports]
  cases hx : x.isSynthesized with
  | true => cases registry.directory.isWanted <;> simp [writeReports]
  | false =>
    have hnone : x.reportFile? w.schema = none := by
      rw [Descriptor.isSynthesized, Option.isSome_eq_false_iff, Option.isNone_iff_eq_none] at hx
      rw [Descriptor.reportFile?, hx]
      rfl
    simp [writeReports, writeReport, hnone]

theorem isWanted_reports (directory : Directory) (made : List Descriptor) :
    (w.reports directory made).1.isWanted = directory.isWanted := by
  rw [reports]
  split
  · induction made generalizing directory with
    | nil => rfl
    | cons d made ih =>
      rw [writeReports]
      dsimp only
      rw [ih _ (by rwa [isWanted_writeReport]), isWanted_writeReport]
  · rfl

theorem reports_cons (directory : Directory) (d : Descriptor) (made : List Descriptor) :
    w.reports directory (d :: made) =
      ((w.reports (w.reports directory [d]).1 made).1,
        (w.reports directory [d]).2 ++ (w.reports (w.reports directory [d]).1 made).2) := by
  have hone := isWanted_reports (w := w) directory [d]
  rw [reports, reports.eq_1 w (w.reports directory [d]).1, hone]
  rw [reports]
  split
  · simp only [writeReports, List.append_nil]
  · rfl

theorem count_eq (hr : w.registries[r]? = some registry) {d : DescriptorId} {x : Descriptor}
    (hx : w.descriptors[d]? = some x) :
    w.count r d = { w with
      registries := w.registries.setIfInBounds r { registry with
        synthesized := registry.synthesized + if x.isSynthesized then 1 else 0
        directory := (w.reports registry.directory [x]).1 }
      events := (w.reports registry.directory [x]).2.reverse ++ w.events } := by
  rw [count, hr, hx]
  dsimp only
  rw [tally_eq]

/-- A registry that has counted a descriptor. -/
theorem count_registry (hr : w.registries[r]? = some registry) {d : DescriptorId} {x : Descriptor}
    (hx : w.descriptors[d]? = some x) :
    (w.count r d).registries[r]? = some { registry with
      synthesized := registry.synthesized + if x.isSynthesized then 1 else 0
      directory := (w.reports registry.directory [x]).1 } := by
  rw [count_eq hr hx]
  exact Array.getElem?_setIfInBounds_self_of_lt (Array.getElem?_eq_some_iff.mp hr).1

/-- Counting a descriptor changes the registry and the events only. -/
theorem count_frame (w : World) (r : RegistryId) (d : DescriptorId) :
    (w.count r d).session = w.session ∧ (w.count r d).heap = w.heap ∧
      ∀ r', r' ≠ r → (w.count r d).registries[r']? = w.registries[r']? := by
  rw [count]
  split
  · exact ⟨rfl, rfl, fun r' hne => Array.getElem?_setIfInBounds_ne (Ne.symm hne)⟩
  · exact ⟨rfl, rfl, fun _ _ => rfl⟩

/-- Inserting a descriptor changes the registry only. -/
theorem insert_frame (w : World) (r : RegistryId) (entry : Ty × DescriptorId) :
    (w.insert r entry).session = w.session ∧ (w.insert r entry).heap = w.heap ∧
      ∀ r', r' ≠ r → (w.insert r entry).registries[r']? = w.registries[r']? := by
  refine ⟨rfl, rfl, fun r' hne => ?_⟩
  rw [insert, Array.getElem?_modify, if_neg (Ne.symm hne)]

theorem insert_eq (hr : w.registries[r]? = some registry) {entry : Ty × DescriptorId}
    (hnew : registry.cached? entry.1 = none) :
    w.insert r entry = { w with
      registries := w.registries.setIfInBounds r
        { registry with cache := registry.cache ++ [entry] } } := by
  have hinsert : registry.insert entry = { registry with cache := registry.cache ++ [entry] } := by
    rw [Registry.insert, hnew]
    rfl
  rw [insert]
  congr 1
  refine Array.ext_getElem? fun i => ?_
  rw [Array.getElem?_modify, Array.getElem?_setIfInBounds]
  by_cases hi : r = i
  · subst hi
    have hlt : r < w.registries.size := (Array.getElem?_eq_some_iff.mp hr).1
    rw [if_pos rfl, if_pos rfl, if_pos hlt, hr, Option.map_some, hinsert]
  · rw [if_neg hi, if_neg hi]

/-- A registry that has inserted a descriptor. -/
theorem insert_registry (hr : w.registries[r]? = some registry) {entry : Ty × DescriptorId}
    (hnew : registry.cached? entry.1 = none) :
    (w.insert r entry).registries[r]? = some { registry with cache := registry.cache ++ [entry] } := by
  rw [insert_eq hr hnew]
  exact Array.getElem?_setIfInBounds_self_of_lt (Array.getElem?_eq_some_iff.mp hr).1

/-- Committing descriptors one by one comes to publishing them together. -/
theorem commit_eq {entries : List (Ty × DescriptorId)} (hr : w.registries[r]? = some registry)
    (hdistinct : ((registry.cache ++ entries).map Prod.fst).Nodup)
    (hknown : ∀ e ∈ entries, (w.descriptors[e.2]?).isSome) :
    let made := entries.filterMap fun e => w.descriptors[e.2]?
    w.commit r entries = { w with
      registries := w.registries.setIfInBounds r { registry with
        cache := registry.cache ++ entries
        synthesized := registry.synthesized + made.countP Descriptor.isSynthesized
        directory := (w.reports registry.directory made).1 }
      events := (w.reports registry.directory made).2.reverse ++ w.events } := by
  have hlt : r < w.registries.size := (Array.getElem?_eq_some_iff.mp hr).1
  induction entries generalizing w registry with
  | nil =>
    have hself : w.registries.setIfInBounds r registry = w.registries := by
      refine Array.ext_getElem? fun i => ?_
      rw [Array.getElem?_setIfInBounds]
      by_cases hi : r = i
      · subst hi
        rw [if_pos rfl, if_pos hlt, hr]
      · rw [if_neg hi]
    simp [commit, reports, writeReports, hself]
  | cons entry rest ih =>
    obtain ⟨x, hx⟩ := Option.isSome_iff_exists.mp (hknown entry List.mem_cons_self)
    have hnew : registry.cached? entry.1 = none := by
      rw [List.map_append, List.nodup_append] at hdistinct
      rw [Registry.cached?, List.lookup_eq_none_iff]
      intro e he
      have hne := hdistinct.2.2 e.1 (List.mem_map_of_mem he) entry.1 List.mem_cons_self
      exact bne_iff_ne.mpr (Ne.symm hne)
    let inserted : Registry := { registry with
      cache := registry.cache ++ [entry]
      synthesized := registry.synthesized + if x.isSynthesized then 1 else 0
      directory := (w.reports registry.directory [x]).1 }
    have hfirst : (w.count r entry.2).insert r entry = { w with
        registries := w.registries.setIfInBounds r inserted
        events := (w.reports registry.directory [x]).2.reverse ++ w.events } := by
      have hcount := count_eq hr hx
      have hcounted : (w.count r entry.2).registries[r]? = some { inserted with
          cache := registry.cache } := by
        rw [hcount]
        exact Array.getElem?_setIfInBounds_self_of_lt hlt
      rw [insert_eq hcounted hnew, hcount]
      simp only [Array.setIfInBounds_setIfInBounds]
      rfl
    have hentries : inserted.cache ++ rest = registry.cache ++ entry :: rest :=
      List.append_assoc ..
    show ((w.count r entry.2).insert r entry).commit r rest = _
    generalize (w.count r entry.2).insert r entry = w₁ at hfirst
    have hreports : w₁.reports = w.reports := reports_congr (by rw [hfirst])
    have hinserted : w₁.registries[r]? = some inserted := by
      rw [hfirst]
      exact Array.getElem?_setIfInBounds_self_of_lt hlt
    have hdescriptors : w₁.descriptors = w.descriptors := by rw [hfirst]
    rw [ih hinserted (hentries ▸ hdistinct)
      (fun e he => hdescriptors ▸ hknown e (List.mem_cons_of_mem _ he))
      (Array.getElem?_eq_some_iff.mp hinserted).1, hreports, hdescriptors, hfirst]
    have hmade := reports_cons (w := w) registry.directory x
      (rest.filterMap fun e => w.descriptors[e.2]?)
    simp only [Array.setIfInBounds_setIfInBounds, hentries, List.filterMap_cons, hx, hmade,
      List.countP_cons, List.reverse_append, List.append_assoc]
    congr 3
    show registry.synthesized + _ + _ = _
    omega

/-- Adopting what a session has made is taking it over and committing it. -/
theorem adopt_eq {s : Session} (hr : w.registries[r]? = some registry)
    (hdistinct : ((registry.cache ++ s.staged).map Prod.fst).Nodup)
    (hknown : ∀ e ∈ s.staged, (s.descriptors[e.2]?).isSome) :
    w.adopt r registry s = (w.take registry s).commit r s.staged := by
  have hregistry : (w.take registry s).registries[r]? = some registry := hr
  have hcommit := commit_eq hregistry hdistinct hknown
  rw [hcommit]
  have hreports : (w.take registry s).reports = World.reports
      { w with schema := s.schema, descriptors := s.descriptors, lookups := s.lookups } :=
    reports_congr rfl
  have hcount : (s.staged.countP fun e => (s.descriptors[e.2]?).any Descriptor.isSynthesized) =
      (s.staged.filterMap fun e => s.descriptors[e.2]?).countP Descriptor.isSynthesized := by
    rw [List.countP_filterMap]
    refine List.countP_congr fun e _ => ?_
    cases s.descriptors[e.2]? <;> simp
  have hpublish : registry.publish s = { registry with
      cache := registry.cache ++ s.staged
      synthesized := registry.synthesized +
        (s.staged.filterMap fun e => s.descriptors[e.2]?).countP Descriptor.isSynthesized } := by
    rw [← registry.cache_publish hdistinct, ← hcount]
    rfl
  rw [hreports, adopt]
  simp only [hpublish, reports, take, List.reverse_append, List.append_assoc]

end World

namespace Scene

variable {S : Scene} {r : RegistryId} {w w' : World} {c c' : Option Commit}

theorem turn_turn : (S.turn r w c).turn r w' c' = S.turn r w' c' := by
  simp only [turn, Function.update_idem]

theorem turn_commits : (S.turn r w c).commits r = c := Function.update_self ..

/-- A registry that is free is left free in the end. -/
theorem turn_of_free (hfree : S.commits r = none) : S.turn r w none = { S with world := w } := by
  rw [turn, ← hfree, Function.update_eq_self]

/-- A commit that is not interrupted, as far as some first entries. -/
theorem commit_runs {t : Ty} {entries rest : List (Ty × DescriptorId)} :
    Runs (S.turn r w (some ⟨t, entries ++ rest, false⟩)) []
      (S.turn r (w.commit r entries) (some ⟨t, rest, false⟩)) := by
  induction entries generalizing w with
  | nil => exact .refl _
  | cons entry entries ih =>
    have hcount := Step.count (S := S.turn r w (some ⟨t, entry :: entries ++ rest, false⟩)) turn_commits
    rw [turn_turn] at hcount
    have hinsert := Step.insert
      (S := S.turn r (w.count r entry.2) (some ⟨t, entry :: entries ++ rest, true⟩)) turn_commits
    rw [turn_turn] at hinsert
    exact ((Runs.single hcount).tail hinsert).trans ih

end Scene

end RecordForge
