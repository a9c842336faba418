import RecordForge.Proofs.Run.Growth
import RecordForge.Proofs.Scene.Classes

/-!
# Bodies in scenes

When no registry is about to publish anything, bodies run from scene to scene: whatever a body does,
to any depth of nested calls, is a run of steps (`Regime.quiet`). So what holds of all scenes that
come about from nothing goes on to hold while bodies run.
-/

namespace RecordForge

namespace Heap.Within

variable {h h' : Heap} {s : Schema}

/-- New objects are of declared classes. -/
theorem adds {C : ClassId → Prop} (hw : h.Within s) (ha : h.Adds C h')
    (hC : ∀ c, C c → s.Declares (.cls c)) : h'.Within s := by
  intro o i ho
  by_cases hold : o < h.objects.size
  · obtain ⟨i₀, hi₀⟩ := exists_object? hold
    obtain rfl := Option.some.inj ((ha.old hi₀).symm.trans ho)
    exact hw hi₀
  · rcases ha.classes (Nat.le_of_not_lt hold) ho with hc | ⟨o₀, i₀, ho₀, hc⟩
    · exact hC _ hc
    · exact hc ▸ hw ho₀

theorem put (hw : h.Within s) (o : ObjectId) (k : Nat) (v : Value) : (h.put o k v).Within s := by
  intro o' i ho
  rw [object?_put] at ho
  split at ho
  · obtain ⟨i₀, hi₀, rfl⟩ := Option.map_eq_some_iff.mp ho
    have hclass : s.Declares (.cls i₀.cls) := hw hi₀
    exact hclass
  · exact hw ho

theorem store (hw : h.Within s) {o : ObjectId} {k : Nat} {v : Value} (hs : h.store o k v = some h') :
    h'.Within s := by
  obtain ⟨i, -, -, rfl⟩ := store_eq_some_iff.mp hs
  have hassign : (h.assign v).2.Within s := adds hw (assign_adds h v).1 fun _ hc => hc.elim
  intro o' i' ho
  exact put hassign o k (h.assign v).1 ho

end Heap.Within

/-- The scene in which no registry is about to publish anything. -/
def World.quiet (w : World) : Scene := ⟨w, fun _ => none⟩

namespace World

variable {w w' : World} {t : Ty} {o : ObjectId}

/-- A heap that grows by objects of declared classes. -/
theorem Works.of_heap {heap : Heap} (hg : w.heap.Grows heap) (hw : heap.Within w.schema) :
    w.Works { w with heap } := ⟨rfl, rfl, rfl, rfl, hg, hw⟩

/-- What bodies do is a step. -/
theorem Works.runs (h : w.Works w') : Scene.Runs w.quiet [] w'.quiet :=
  .single (.work (S := w.quiet) h)

/-- Storing a value. -/
theorem Works.setField (hw : w.heap.Within w.schema) {k : Nat} {v : Value}
    (h : w.setField o k v = .ok w') : w.Works w' := by
  obtain ⟨heap, hstore, rfl⟩ := World.setField_eq_ok_iff.mp h
  exact .of_heap (Heap.store_grows hstore) (Heap.Within.store hw hstore)

/-- Creating an object. -/
theorem Works.newObject (hs : w.schema.Proper) (hw : w.heap.Within w.schema)
    (h : w.newObject t = some (o, w')) : w.Works w' := by
  cases t with
  | cls c =>
    obtain ⟨d, hd, he⟩ := Option.map_eq_some_iff.mp h
    obtain ⟨-, rfl⟩ := Prod.mk.inj he
    let C : ClassId → Prop := fun k => w.schema.Declares (.cls k)
    have hblanks : ∀ b ∈ d.layout.map FieldDecl.blank, b.All C := by
      intro b hb
      obtain ⟨f, hf, rfl⟩ := List.mem_map.mp hb
      exact hs.blanks hd f hf
    have hc : C c := Schema.declares_of_decl? (t := .cls c) hd
    have hadds : w.heap.Adds C (w.heap.allocate c d.isValueType (d.layout.map FieldDecl.blank)).2 :=
      (Heap.allocate_adds hc hblanks).1
    exact .of_heap hadds.grows (Heap.Within.adds hw hadds fun _ h => h)
  | any => cases h
  | carrier => cases h
  | scalar k => cases h
  | enum e => cases h

/-- A request that is served is a run. -/
theorem descriptorFor_runs (h : w.quiet.Sound) {r : RegistryId} {registry : Registry}
    (hr : w.registries[r]? = some registry) {d : DescriptorId}
    (hd : w.descriptorFor r registry t = .ok (d, w')) :
    Scene.Runs w.quiet [⟨r, t, .ok d⟩] w'.quiet := by
  have hserves := Scene.serves h hr rfl t
  have hrequest : w.request r t = w' := by rw [request, hr]; dsimp only; rw [hd]
  have hd' : w.quiet.world.descriptorFor r registry t = .ok (d, w') := hd
  rw [hd'] at hserves
  rw [show w.quiet.world.request r t = w' from hrequest] at hserves
  exact hserves

/-- Who was served by a request finds the descriptor published. -/
theorem descriptorFor_published (h : w.quiet.Sound) {r : RegistryId} {registry : Registry}
    (hr : w.registries[r]? = some registry) {d : DescriptorId}
    (hd : w.descriptorFor r registry t = .ok (d, w')) :
    ∃ registry', w'.registries[r]? = some registry' ∧ registry'.cached? t = some d :=
  (descriptorFor_runs h hr hd).published_of_told h (List.mem_singleton.mpr rfl)

/-- Resolving a lookup is a run: a request, if one is needed, and keeping its answer. -/
theorem resolve_runs (h : w.quiet.Sound) {l : LookupId} {x : Descriptor}
    (hl : w.resolve l = .ok (x, w')) : ∃ told, Scene.Runs w.quiet told w'.quiet := by
  obtain ⟨lookup, hlookup, ⟨-, rfl⟩ | ⟨-, registry, d, w₁, hr, -, hd, -, rfl⟩⟩ :=
    resolve_eq_ok_iff.mp hl
  · exact ⟨[], .refl _⟩
  · have hruns := descriptorFor_runs h hr hd
    obtain ⟨registry', hr', hc⟩ := descriptorFor_published h hr hd
    -- the lookup may be a new record, but it asks the same question
    have hquestion := (hruns.evolves h).world.lookups (l := l)
      (x := (lookup.fieldType, lookup.registry)) (by
        show (w.lookups[l]?).map Lookup.question = _
        rw [hlookup]
        rfl)
    obtain ⟨lookup', hlookup', hq⟩ := Option.map_eq_some_iff.mp hquestion
    obtain ⟨htype, hregistry⟩ := Prod.mk.inj hq
    have hsame : ({ lookup with found := some d } : Lookup) = { lookup' with found := some d } := by
      rw [← htype, ← hregistry]
    rw [hsame]
    exact ⟨_, hruns.tail (.note hlookup' (hregistry ▸ hr') (htype ▸ hc))⟩

end World

/-- **Bodies run from scene to scene.** -/
def Regime.quiet : Regime where
  Inv w := w.quiet.Sound
  Admits _ _ := True
  Opens _ _ := True
  Leads w w' := w.quiet.Sound → ∃ told, Scene.Runs w.quiet told w'.quiet
  refl w _ := ⟨[], .refl _⟩
  trans h h' hw := by
    obtain ⟨_, hruns⟩ := h hw
    obtain ⟨_, hruns'⟩ := h' (hruns.sound hw)
    exact ⟨_, hruns.trans hruns'⟩
  inv hw h := by
    obtain ⟨_, hruns⟩ := h hw
    exact hruns.sound hw
  mono _ _ := trivial
  opens_mono _ _ := trivial
  admits _ := trivial
  encloses _ _ := .inl trivial
  literal _ := trivial
  literals _ := Schema.literals_true _
  field _ _ _ := trivial
  parameters _ _ _ _ _ := trivial
  store h _ _ hs _ := ⟨_, (World.Works.setField h.heap hs).runs⟩
  allocate h hn := ⟨fun _ => ⟨_, (World.Works.newObject h.proper h.heap hn).runs⟩, trivial⟩
  carrier {w c heap} h he := by
    cases he
    exact ⟨fun _ => ⟨_, (World.Works.of_heap w.heap.newCarrier_grows fun ho => h.heap ho).runs⟩,
      trivial⟩
  setParameters {w c values} h _ _ _ :=
    ⟨_, (World.Works.of_heap (w.heap.setParameters_grows c values) fun ho => h.heap ho).runs⟩
  observe w e h := by
    have hworks : w.Works (w.observe e) := ⟨rfl, rfl, rfl, rfl, .refl _, h.heap⟩
    exact ⟨_, hworks.runs⟩
  spend w site h := by
    have hworks : w.Works { w with spent := site :: w.spent } :=
      ⟨rfl, rfl, rfl, rfl, .refl _, h.heap⟩
    exact ⟨_, hworks.runs⟩
  resolve h hl _ := World.resolve_runs h hl

instance : Regime.quiet.IsOpen := ⟨fun _ => trivial⟩

end RecordForge
