import RecordForge.Proofs.Heap.Parts
import RecordForge.Proofs.Access.Writes
import RecordForge.Proofs.Scene.Tidy
import RecordForge.Proofs.Schema.Forms

/-!
# What statics keep for themselves

A static that is made blank is an object that nobody else comes by, if it is held by value: whoever
reads the static is given a copy. So bodies, which come across nothing but what can be come by
(`World.Handed`), neither change it nor store it anywhere (`Regime.guarded`). In particular the static
of a nullable wrapper that holds no value goes on to hold none.
-/

namespace RecordForge

/-- An object that a static keeps for itself. -/
def World.Kept (w : World) (y : ObjectId) : Prop :=
  w.heap.isByValue (.object y) = true ∧ ∃ t name d, w.schema.static? t name = some d ∧
    d.body = .blank ∧ ((t, name), Value.object y) ∈ w.statics

/-- A value that can be come by: it is there, and no static keeps it for itself. -/
structure World.Handed (w : World) (v : Value) : Prop where
  known : v.Known w.heap
  free : ∀ {y}, v = .object y → ¬w.Kept y

/-- What statics keep for themselves is held and mentioned nowhere, and the static without a value of a
nullable wrapper is as it was made. -/
structure World.Secluded (w : World) : Prop where
  declared : ∀ {t name v}, ((t, name), v) ∈ w.statics → ∃ d, w.schema.static? t name = some d
  known : ∀ {t name v}, ((t, name), v) ∈ w.statics → v.Known w.heap
  loose : ∀ {y}, w.Kept y → w.heap.Loose y
  parameters : ∀ {c : CarrierId} {vs}, w.heap.parameters? c = some vs → ∀ v ∈ vs, w.Handed v
  literals : w.schema.Literals w.Handed
  given : ∀ {r : RegistryId} {registry}, w.registries[r]? = some registry →
    registry.provider.Gives w.Handed w.schema
  blank : ∀ {n : ClassId} {name k settable v},
    w.schema.class? n = some (Nullable.decl name k settable) →
      ((.cls n, Nullable.sentinelName), v) ∈ w.statics → ∃ y, v = .object y ∧
        w.heap.object? y = some ⟨n, true, [k.zero, .ofBool false]⟩

/-- Classes begin with what their bases have, and objects have the fields of their classes. -/
structure World.Formed (w : World) : Prop where
  schema : w.schema.Formed
  heap : w.heap.Formed w.schema.Forms

/-- What holds of a world between the operations on it. -/
structure World.Settled (w : World) : Prop where
  sound : w.quiet.Sound
  tidy : w.Tidy
  formed : w.Formed
  secluded : w.Secluded

/-- A run leads from a settled world to a settled one. It takes no object into a field, and what could
be come by still can. -/
structure World.Guards (w w' : World) : Prop where
  tends : w.Tends w'
  schema : w.schema.Extends w'.schema
  loosens : w.heap.Loosens w'.heap
  handed : ∀ {v}, w.Handed v → w'.Handed v
  formed : w.Settled → w'.Formed
  secluded : w.Settled → w'.Secluded

theorem Schema.static?_mono {s s' : Schema} (h : s.Extends s') {t : Ty} {name : String}
    {d : StaticDecl} (hd : s.static? t name = some d) : s'.static? t name = some d := by
  obtain ⟨c, hc, hfind⟩ := Option.bind_eq_some_iff.mp hd
  exact Option.bind_eq_some_iff.mpr ⟨c, Schema.decl?_mono h hc, hfind⟩

theorem Provider.Gives.imp {p : Provider} {P Q : Value → Prop} {s : Schema} (hp : p.Gives P s)
    (h : ∀ v, P v → Q v) : p.Gives Q s :=
  fun t ht q hq vs hvs v hv => h v (hp t ht q hq vs hvs v hv)

namespace World

variable {w w' w'' : World} {heap : Heap} {y : ObjectId} {v : Value} {vs : List Value}

/-! ## Values that can be come by -/

theorem Kept.lt_size (hy : w.Kept y) : y < w.heap.objects.size := Heap.lt_of_isByValue hy.1

/-- A static keeps nothing else while the heap grows. -/
theorem kept_of_heap (hg : w.heap.Grows heap) (hlt : y < w.heap.objects.size)
    (hy : Kept { w with heap } y) : w.Kept y := by
  obtain ⟨hb, hstatic⟩ := hy
  refine ⟨?_, hstatic⟩
  rwa [← hg.isByValue_eq (v := .object y) hlt]

theorem Handed.of_isLiteral (hv : v.isLiteral = true) : w.Handed v where
  known := .of_isLiteral hv
  free he := by
    rw [he] at hv
    cases hv

/-- What can be come by can be come by while the heap grows. -/
theorem Handed.of_heap (hg : w.heap.Grows heap) (hv : w.Handed v) : Handed { w with heap } v where
  known := hv.known.mono hg
  free {y} he hy := by
    have hlt : y < w.heap.objects.size := by
      have hknown := hv.known
      rwa [he] at hknown
    exact hv.free he (kept_of_heap hg hlt hy)

/-- So it can whatever a world does besides. -/
theorem Handed.of_same (hv : w.Handed v) (hschema : w'.schema = w.schema) (hheap : w'.heap = w.heap)
    (hstatics : w'.statics = w.statics) : w'.Handed v where
  known := hheap ▸ hv.known
  free he := by
    rintro ⟨hb, t, name, d, hd, hblank, hmem⟩
    exact hv.free he ⟨hheap ▸ hb, t, name, d, hschema ▸ hd, hblank, hstatics ▸ hmem⟩

/-- Statics keep what is held by value only. -/
theorem Handed.of_shared (hv : v.Known w.heap) (hb : w.heap.isByValue v = false) : w.Handed v where
  known := hv
  free he hy := by
    rw [he, hy.1] at hb
    cases hb

/-- As long as no static has been read, everything can be come by. -/
theorem Handed.of_no_statics (hs : w.statics = []) (hv : v.Known w.heap) : w.Handed v where
  known := hv
  free _ := by
    rintro ⟨-, _, _, _, -, -, hmem⟩
    rw [hs] at hmem
    cases hmem

/-- No static has come to keep a new object yet. -/
theorem Handed.of_new (hs : w.Secluded) (hv : v.Known heap)
    (hnew : ∀ y, v = .object y → heap.isByValue v = true → w.heap.objects.size ≤ y) :
    Handed { w with heap } v where
  known := hv
  free {y} he hy := by
    obtain ⟨hb, t, name, d, -, -, hmem⟩ := hy
    have hlt : y < w.heap.objects.size := hs.known hmem
    exact Nat.not_le_of_lt hlt (hnew y he (he ▸ hb))

/-- What an operation yields can be come by. -/
theorem Handed.of_yields (hs : w.Secluded) (hy : w.heap.Yields heap vs) (hv : v ∈ vs) :
    Handed { w with heap } v :=
  .of_new hs (hy.known v hv) fun y he hb => hy.new y (he ▸ hv) (he ▸ hb)

/-! ## Heaps that grow -/

/-- The static without a value of a nullable wrapper is kept. -/
theorem Secluded.kept_sentinel (hs : w.Secluded) {n : ClassId} {name : String} {k : Kind}
    {settable : Bool} (hn : w.schema.class? n = some (Nullable.decl name k settable))
    (hv : ((.cls n, Nullable.sentinelName), v) ∈ w.statics) : ∃ y, v = .object y ∧ w.Kept y ∧
      w.heap.object? y = some ⟨n, true, [k.zero, .ofBool false]⟩ := by
  obtain ⟨y, rfl, hy⟩ := hs.blank hn hv
  obtain ⟨d, hd⟩ := hs.declared hv
  have hblank : d.body = .blank := by
    rw [Schema.static?, show w.schema.decl? (.cls n) = _ from hn] at hd
    obtain rfl := Option.some.inj hd
    rfl
  exact ⟨y, rfl, ⟨Heap.isByValue_object.mpr ⟨_, hy, rfl⟩, _, _, d, hd, hblank, hv⟩, hy⟩

/-- What statics keep stays secluded while no field takes it in and no object of it is changed. -/
theorem Secluded.of_heap (hs : w.Secluded) (hl : w.heap.Loosens heap)
    (hp : ∀ {c : CarrierId} {vs}, heap.parameters? c = some vs → ∀ v ∈ vs, Handed { w with heap } v)
    (hk : ∀ {y}, w.Kept y → heap.object? y = w.heap.object? y) : Secluded { w with heap } := by
  have hkept : ∀ {y}, Kept { w with heap } y → w.Kept y := by
    rintro y ⟨hb, t, name, d, hd, hblank, hmem⟩
    have hlt : y < w.heap.objects.size := hs.known hmem
    exact kept_of_heap hl.grows hlt ⟨hb, t, name, d, hd, hblank, hmem⟩
  have hmono : ∀ v, w.Handed v → Handed { w with heap } v := fun _ => .of_heap hl.grows
  refine
    { declared := hs.declared
      known := fun hmem => (hs.known hmem).mono hl.grows
      loose := fun hy => ?loose
      parameters := hp
      literals := hs.literals.imp hmono
      given := fun hr => (hs.given hr).imp hmono
      blank := fun hn hmem => ?blank }
  case loose =>
    have hold := hkept hy
    exact hl.loose (hs.loose hold) hold.lt_size hold.1
  case blank =>
    obtain ⟨y, rfl, hy, hobject⟩ := hs.kept_sentinel hn hmem
    exact ⟨y, rfl, (hk hy).trans hobject⟩

/-- A heap that grows, in a world that is settled. -/
theorem Guards.of_heap (ht : w.Tends { w with heap }) (hl : w.heap.Loosens heap)
    (hf : w.Settled → heap.Formed w.schema.Forms)
    (hp : w.Settled → ∀ {c : CarrierId} {vs}, heap.parameters? c = some vs →
      ∀ v ∈ vs, Handed { w with heap } v)
    (hk : ∀ {y}, w.Kept y → heap.object? y = w.heap.object? y) : w.Guards { w with heap } where
  tends := ht
  schema := .refl _
  loosens := hl
  handed := .of_heap hl.grows
  formed h := ⟨h.formed.schema, hf h⟩
  secluded h := h.secluded.of_heap hl (hp h) hk

/-- The parameters of carriers can be come by as before, if they are as they were. -/
theorem Secluded.handed_parameters (hs : w.Secluded) (hg : w.heap.Grows heap)
    (hc : heap.carriers = w.heap.carriers) {c : CarrierId} (hp : heap.parameters? c = some vs)
    (hv : v ∈ vs) : Handed { w with heap } v := by
  rw [Heap.parameters?, hc] at hp
  exact .of_heap hg (hs.parameters hp v hv)

/-- An operation that changes no object that is there, in a world that is settled. -/
theorem Guards.of_yields (hw : w.Settled) (hy : w.heap.Yields heap vs)
    (hb : w.heap.Brings w.schema.Forms heap) : w.Guards { w with heap } := by
  have hwithin : heap.Within w.schema := (hb.formed hw.formed.heap).within
  have htends : w.Tends { w with heap } :=
    ⟨hy.grows, fun _ => (Works.of_heap hy.grows hwithin).leads, fun _ h => h.of_heap hy.grows hy.tidy⟩
  refine .of_heap htends (.of_yields hy) (fun h => hb.formed h.formed.heap) (fun h _ _ hp _ hv =>
    h.secluded.handed_parameters hy.grows hy.carriers hp hv) fun {y} hk => ?_
  obtain ⟨i, hi⟩ := Heap.exists_object? hk.lt_size
  exact (hy.old hi).trans hi.symm

theorem Guards.refl (w : World) : w.Guards w :=
  ⟨Regime.tidy.refl w, .refl _, .refl _, id, World.Settled.formed, World.Settled.secluded⟩

theorem Guards.settled (h : w.Guards w') (hw : w.Settled) : w'.Settled := by
  obtain ⟨hsound, htidy⟩ := Regime.tidy.inv ⟨hw.sound, hw.tidy⟩ h.tends
  exact ⟨hsound, htidy, h.formed hw, h.secluded hw⟩

theorem Guards.trans (h : w.Guards w') (h' : w'.Guards w'') : w.Guards w'' where
  tends := Regime.tidy.trans h.tends h'.tends
  schema := h.schema.trans h'.schema
  loosens := h.loosens.trans h'.loosens
  handed hv := h'.handed (h.handed hv)
  formed hw := h'.formed (h.settled hw)
  secluded hw := h'.secluded (h.settled hw)

/-! ## Requests -/

/-- A new object is all that is new, with what its class holds by value. -/
theorem newObject_yields (hw : w.Settled) {t : Ty} {o : ObjectId} (h : w.newObject t = some (o, w')) :
    ∃ heap, w' = { w with heap } ∧ w.heap.Yields heap [.object o] ∧
      w.heap.Brings w.schema.Forms heap := by
  cases t with
  | cls c =>
    obtain ⟨d, hd, he⟩ := Option.map_eq_some_iff.mp h
    obtain ⟨rfl, rfl⟩ := Prod.mk.inj he
    refine ⟨_, rfl, Heap.allocate_yields hw.tidy.heap c d.isValueType (d.layout.map FieldDecl.blank),
      Heap.allocate_brings ⟨d, hd, rfl, List.length_map _⟩ fun b hb => ?_⟩
    obtain ⟨f, hf, rfl⟩ := List.mem_map.mp hb
    exact hw.formed.schema.blanks hd f hf
  | any => cases h
  | carrier => cases h
  | scalar k => cases h
  | enum e => cases h

/-- A request changes no providers. -/
theorem descriptorFor_providers {r : RegistryId} {registry : Registry} {t : Ty} {e : DescriptorId}
    (hr : w.registries[r]? = some registry) (he : w.descriptorFor r registry t = .ok (e, w'))
    {r' : RegistryId} {x : Registry} (hx : w'.registries[r']? = some x) :
    ∃ x₀, w.registries[r']? = some x₀ ∧ x.provider = x₀.provider := by
  rw [World.descriptorFor] at he
  split at he
  · cases he
    exact ⟨x, hx, rfl⟩
  · obtain ⟨⟨found, s⟩, -, he⟩ := RequestError.bind_eq_ok_iff.mp he
    cases he
    rw [World.adopt, Array.getElem?_setIfInBounds] at hx
    split at hx
    · next h =>
      subst h
      split at hx
      · exact ⟨registry, hr, (Option.some.inj hx) ▸ rfl⟩
      · cases hx
    · exact ⟨x, hx, rfl⟩

/-- What statics keep stays secluded while the schema and the registries grow by what mentions nothing
of it. -/
theorem Secluded.extend (hs : w.Secluded) (hheap : w'.heap = w.heap) (hstatics : w'.statics = w.statics)
    (he : w.schema.Extends w'.schema) (hliterals : w'.schema.Literals w.Handed)
    (hgiven : ∀ {r : RegistryId} {registry}, w'.registries[r]? = some registry →
      registry.provider.Gives w.Handed w'.schema) :
    (∀ {v}, w.Handed v → w'.Handed v) ∧ w'.Secluded := by
  have hdecl : ∀ {t name v}, ((t, name), v) ∈ w.statics → ∃ c, w.schema.decl? t = some c := by
    intro t name v hmem
    obtain ⟨d, hd⟩ := hs.declared hmem
    obtain ⟨c, hc, -⟩ := Option.bind_eq_some_iff.mp hd
    exact ⟨c, hc⟩
  have hkept : ∀ {y}, w'.Kept y → w.Kept y := by
    rintro y ⟨hb, t, name, d, hd, hblank, hmem⟩
    rw [hheap] at hb
    rw [hstatics] at hmem
    obtain ⟨d₀, hd₀⟩ := hs.declared hmem
    obtain rfl := Option.some.inj ((Schema.static?_mono he hd₀).symm.trans hd)
    exact ⟨hb, t, name, d₀, hd₀, hblank, hmem⟩
  have hmono : ∀ v, w.Handed v → w'.Handed v := fun v hv =>
    ⟨hheap ▸ hv.known, fun he hy => hv.free he (hkept hy)⟩
  have hdeclared : ∀ {t name v}, ((t, name), v) ∈ w'.statics → ∃ d, w'.schema.static? t name = some d := by
    intro t name v hmem
    rw [hstatics] at hmem
    obtain ⟨d, hd⟩ := hs.declared hmem
    exact ⟨d, Schema.static?_mono he hd⟩
  have hparameters : ∀ {c : CarrierId} {vs}, w'.heap.parameters? c = some vs →
      ∀ v ∈ vs, w'.Handed v := by
    intro c vs hp v hv
    rw [hheap] at hp
    exact hmono v (hs.parameters hp v hv)
  -- a wrapper with a static that has been read was declared when that happened
  have hblank : ∀ {n : ClassId} {name k settable v},
      w'.schema.class? n = some (Nullable.decl name k settable) →
        ((.cls n, Nullable.sentinelName), v) ∈ w'.statics → ∃ y, v = .object y ∧
          w'.heap.object? y = some ⟨n, true, [k.zero, .ofBool false]⟩ := by
    intro n name k settable v hn hmem
    rw [hstatics] at hmem
    rw [hheap]
    obtain ⟨c, hc⟩ := hdecl hmem
    have hclass : w'.schema.class? n = some c := he.classes hc
    obtain rfl := Option.some.inj (hclass.symm.trans hn)
    exact hs.blank hc hmem
  exact ⟨hmono _,
    { declared := hdeclared
      known := fun hmem => hheap ▸ hs.known (hstatics ▸ hmem)
      loose := fun hy => hheap ▸ hs.loose (hkept hy)
      parameters := hparameters
      literals := hliterals.imp hmono
      given := fun hr => (hgiven hr).imp hmono
      blank := hblank }⟩

/-- Schema and registries grow by what mentions nothing of what statics keep. -/
theorem Guards.extend (hw : w.Settled) (ht : w.Tends w') (hheap : w'.heap = w.heap)
    (hstatics : w'.statics = w.statics) (he : w.schema.Extends w'.schema) (hf : w'.schema.Formed)
    (hliterals : w'.schema.Literals w.Handed)
    (hgiven : ∀ {r : RegistryId} {registry}, w'.registries[r]? = some registry →
      registry.provider.Gives w.Handed w'.schema) : w.Guards w' := by
  obtain ⟨hhanded, hsecluded⟩ := hw.secluded.extend hheap hstatics he hliterals hgiven
  have hobjects : w'.heap.Formed w'.schema.Forms := by
    intro o i ho
    rw [hheap] at ho
    exact (hw.formed.heap o i ho).mono he
  exact {
    tends := ht
    schema := he
    loosens := .of_objects (hheap ▸ .refl _) (congrArg Heap.objects hheap)
    handed := hhanded
    formed := fun _ => ⟨hf, hobjects⟩
    secluded := fun _ => hsecluded }

/-- What a world does besides makes no difference. -/
theorem Secluded.of_same (hs : w.Secluded) (hschema : w'.schema = w.schema) (hheap : w'.heap = w.heap)
    (hstatics : w'.statics = w.statics) (hregistries : w'.registries = w.registries) :
    w'.Secluded := by
  refine (hs.extend hheap hstatics (hschema ▸ .refl _) (hschema ▸ hs.literals) fun hr => ?_).2
  rw [hschema]
  rw [hregistries] at hr
  exact hs.given hr

theorem Guards.of_same (ht : w.Tends w') (hschema : w'.schema = w.schema) (hheap : w'.heap = w.heap)
    (hstatics : w'.statics = w.statics) (hregistries : w'.registries = w.registries) :
    w.Guards w' where
  tends := ht
  schema := hschema ▸ .refl _
  loosens := .of_objects (hheap ▸ .refl _) (congrArg Heap.objects hheap)
  handed hv := hv.of_same hschema hheap hstatics
  formed h := ⟨hschema ▸ h.formed.schema, hschema ▸ hheap ▸ h.formed.heap⟩
  secluded h := h.secluded.of_same hschema hheap hstatics hregistries

theorem descriptorFor_statics {r : RegistryId} {registry : Registry} {t : Ty} {e : DescriptorId}
    (he : w.descriptorFor r registry t = .ok (e, w')) : w'.statics = w.statics := by
  rw [World.descriptorFor] at he
  split at he
  · cases he
    rfl
  · obtain ⟨⟨found, s⟩, -, he⟩ := RequestError.bind_eq_ok_iff.mp he
    cases he
    rfl

/-- A request leaves alone what statics keep. -/
theorem Guards.descriptorFor (hw : w.Settled) {r : RegistryId} {registry : Registry} {t : Ty}
    {e : DescriptorId} (hr : w.registries[r]? = some registry)
    (he : w.descriptorFor r registry t = .ok (e, w')) : w.Guards w' := by
  obtain ⟨hschema, hheap⟩ := descriptorFor_grows he
  have hstatics := descriptorFor_statics he
  have hliterals : w'.schema.Literals w.Handed := descriptorFor_literals hw.sound hr he
    (fun _ => .of_isLiteral) (hw.secluded.given hr) hw.secluded.literals
  have htends : w.Tends w' :=
    ⟨hheap ▸ .refl _, fun h => ⟨_, descriptorFor_runs h hr he⟩, fun h ht => ht.descriptorFor h hr he⟩
  have hformed : w'.schema.Formed := hw.formed.schema.extend hschema fun hd => by
    rcases descriptorFor_made hw.sound hr he hd with hold | ⟨-, ⟨i, b, rfl, htype, hb, ha⟩, -⟩
    · exact .inl hold
    · exact .inr (hw.formed.schema.implementation hw.sound.proper htype hb ha)
  refine .extend hw htends hheap hstatics hschema hformed hliterals fun {r' x} hx => ?_
  obtain ⟨x₀, hx₀, hp⟩ := descriptorFor_providers hr he hx
  rw [hp]
  refine (hw.secluded.given hx₀).schema hw.sound.proper.closed hschema fun hd => ?_
  rcases descriptorFor_made hw.sound hr he hd with hold | ⟨hconcrete, -⟩
  · exact .inl hold
  · exact .inr hconcrete

/-- So does resolving a lookup. -/
theorem Guards.resolve (hw : w.Settled) {l : LookupId} {x : Descriptor}
    (hl : w.resolve l = .ok (x, w')) : w.Guards w' := by
  have htends : w.Tends w' := Regime.tidy.resolve ⟨hw.sound, hw.tidy⟩ hl
  obtain ⟨lookup, -, ⟨-, rfl⟩ | ⟨-, registry, e, w₁, hr, -, hd, -, rfl⟩⟩ := resolve_eq_ok_iff.mp hl
  · exact .refl w'
  · have hguards := Guards.descriptorFor hw hr hd
    exact {
      tends := htends
      schema := hguards.schema
      loosens := hguards.loosens
      handed := fun hv => (hguards.handed hv).of_same rfl rfl rfl
      formed := fun h => ⟨(hguards.formed h).schema, (hguards.formed h).heap⟩
      secluded := fun h => (hguards.secluded h).of_same rfl rfl rfl rfl }

/-- Storing a value that can be come by, into an object that can be come by. -/
theorem Guards.setField (hw : w.Settled) {o : ObjectId} {k : Nat} (ho : w.Handed (.object o))
    (hv : w.Handed v) (h : w.setField o k v = .ok w') : w.Guards w' := by
  have htends : w.Tends w' := Regime.tidy.store ⟨hw.sound, hw.tidy⟩ ho.known hv.known h
  obtain ⟨heap, hstore, rfl⟩ := setField_eq_ok_iff.mp h
  refine .of_heap htends (.of_store hw.tidy.heap hv.known hstore)
    (fun h => h.formed.heap.store h.tidy.heap hv.known hstore) (fun h _ _ hp _ hu => ?_)
    fun {y} hy => ?_
  · exact h.secluded.handed_parameters htends.heap (Heap.store_carriers hstore) hp hu
  · have hne : y ≠ o := by
      rintro rfl
      exact ho.free rfl hy
    obtain ⟨i, hi⟩ := Heap.exists_object? hy.lt_size
    exact ((Heap.store_spec hw.tidy.heap hv.known hstore).1.others hne hi).trans hi.symm

end World

/-- **Bodies leave alone what statics keep**, as long as they come across nothing but what can be come
by. -/
def Regime.guarded : Regime where
  Inv := World.Settled
  Admits := World.Handed
  Opens w o := w.Handed (.object o)
  Leads := World.Guards
  refl := World.Guards.refl
  trans := World.Guards.trans
  inv hw h := h.settled hw
  mono h hv := h.handed hv
  opens_mono h ho := h.handed ho
  admits ho := ho
  encloses _ ho := .inl ho
  literal := World.Handed.of_isLiteral
  literals hw := hw.secluded.literals
  field {w o k v} hw _ hf := by
    have hheld := World.field_eq_ok_iff.mp hf
    refine ⟨hw.tidy.heap.known hheld, fun {y} he hy => ?_⟩
    exact hw.secluded.loose hy o k (he ▸ hheld)
  parameters hw _ hp := hw.secluded.parameters hp
  store hw ho hv h := .setField hw ho hv h
  allocate {w w' t o} hw hn := by
    obtain ⟨heap, rfl, hyields, hbrings⟩ := World.newObject_yields hw hn
    exact ⟨.of_yields hw hyields hbrings, .of_yields hw.secluded hyields (List.mem_singleton.mpr rfl)⟩
  carrier {w c heap} hw he := by
    obtain ⟨htends, hc⟩ := Regime.tidy.carrier ⟨hw.sound, hw.tidy⟩ he
    cases he
    refine ⟨.of_heap htends (.of_objects htends.heap rfl) (fun h => h.formed.heap)
      (fun h c' vs hp v hv => ?_) fun _ => rfl, .of_shared hc rfl⟩
    have hp : ((w.heap.carriers.push none)[c']?).join = some vs := hp
    rw [Array.getElem?_push] at hp
    split at hp
    · cases hp
    · exact .of_heap htends.heap (h.secluded.parameters hp v hv)
  setParameters {w c values} hw hc hvs := by
    have hknown : ∀ vs ∈ values, ∀ v ∈ vs, v.Known w.heap := fun vs h v hv => (hvs vs h v hv).known
    have htends := Regime.tidy.setParameters ⟨hw.sound, hw.tidy⟩ hc.known hknown
    refine .of_heap htends (.of_objects htends.heap rfl) (fun h => h.formed.heap)
      (fun h c' vs hp v hv => ?_) fun _ => rfl
    have hp : ((w.heap.carriers.setIfInBounds c values)[c']?).join = some vs := hp
    refine .of_heap htends.heap ?_
    rw [Array.getElem?_setIfInBounds] at hp
    split at hp
    · split at hp
      · exact hvs vs hp v hv
      · cases hp
    · exact h.secluded.parameters hp v hv
  observe w e := .of_same (Regime.tidy.observe w e) rfl rfl rfl rfl
  spend w site := .of_same (Regime.tidy.spend w site) rfl rfl rfl rfl
  resolve hw hl := .resolve hw hl

instance : Regime.guarded.IsOpen := ⟨fun ho => ho⟩

/-- No body reads a static, so no static is given its value by a body. -/
def Regime.unread : Regime where
  Inv _ := True
  Admits _ _ := True
  Opens _ _ := True
  Leads w w' := w'.statics = w.statics
  refl _ := rfl
  trans h h' := h'.trans h
  inv _ _ := trivial
  mono _ _ := trivial
  opens_mono _ _ := trivial
  admits _ := trivial
  encloses _ _ := .inl trivial
  literal _ := trivial
  literals := Regime.growing.literals
  field _ _ _ := trivial
  parameters _ _ _ _ _ := trivial
  store _ _ _ h := by
    obtain ⟨heap, -, rfl⟩ := World.setField_eq_ok_iff.mp h
    rfl
  allocate _ h := by
    obtain ⟨_, _, -, -, hw, -⟩ := World.newObject_spec h
    exact ⟨hw ▸ rfl, trivial⟩
  carrier _ _ := ⟨rfl, trivial⟩
  setParameters _ _ _ := rfl
  observe _ _ := rfl
  spend _ _ := rfl
  resolve _ h := by
    obtain ⟨lookup, -, ⟨-, rfl⟩ | ⟨-, registry, e, w₁, -, -, hd, -, rfl⟩⟩ := World.resolve_eq_ok_iff.mp h
    · rfl
    · have hstatics := World.descriptorFor_statics hd
      exact hstatics

instance : Regime.unread.IsOpen := ⟨fun _ => trivial⟩

/-! ## Reading statics -/

/-- A static is given its value. -/
def World.keep (w : World) (t : Ty) (name : String) (v : Value) : World :=
  { w with statics := ((t, name), v) :: w.statics }

namespace Run

variable {w : World} {t : Ty} {name : String} {d : StaticDecl} {depth : Nat}

/-- A static that has its value gives what would be stored for it. -/
theorem getStatic_kept {v : Value} (hd : w.schema.static? t name = some d)
    (hl : w.statics.lookup (t, name) = some v) : getStatic depth t name w = assign v w := by
  rw [getStatic, get_bind, hd]
  dsimp only
  rw [hl]
  rfl

/-- A static is given its value when it is read for the first time. -/
theorem getStatic_new (hd : w.schema.static? t name = some d)
    (hl : w.statics.lookup (t, name) = none) : getStatic depth t name w =
      (computeStatic depth t d.body >>= fun v => do
        modify (·.keep t name v)
        assign v) w := by
  rw [getStatic, get_bind, hd]
  dsimp only
  rw [hl]
  rfl

/-- Initializers give no static its value, whether they succeed or fail. -/
theorem computeStatic_statics (depth : Nat) (t : Ty) (b : StaticBody) (w : World) :
    (computeStatic depth t b w).2.statics = w.statics := by
  cases b with
  | routine body =>
    have hfits : Regime.unread.Fits w { declaring := some t } :=
      ⟨fun _ _ => trivial, fun _ _ => trivial, fun _ _ => trivial⟩
    exact (Regime.keeps_routine (Regime.unread.nested_lawful depth) trivial hfits
      (Routine.all_true body)).1
  | blank =>
    rw [computeStatic, get_bind]
    cases hn : w.newObject t with
    | none => rfl
    | some ow =>
      obtain ⟨o, w₁⟩ := ow
      exact (Regime.unread.allocate trivial hn).1

end Run

namespace World

variable {w w' : World} {heap : Heap} {v : Value} {vs : List Value} {t : Ty} {name : String}
variable {d : StaticDecl}

/-- The value of a static is there. -/
theorem Settled.known_static (hw : w.Settled) {key : Ty × String}
    (hl : w.statics.lookup key = some v) : v.Known w.heap := by
  obtain ⟨before, after, he, -⟩ := List.lookup_eq_some_iff.mp hl
  exact hw.secluded.known (he ▸ List.mem_append_right before List.mem_cons_self)

/-- A blank nullable wrapper holds no value. -/
theorem newObject_nullable {n : ClassId} {type : String} {k : Kind} {settable : Bool} {o : ObjectId}
    (hn : w.schema.class? n = some (Nullable.decl type k settable))
    (h : w.newObject (.cls n) = some (o, w')) :
    w'.heap.object? o = some ⟨n, true, [k.zero, .ofBool false]⟩ := by
  let blanks := (Nullable.decl type k settable).layout.map FieldDecl.blank
  have hplaced : w.heap.allocate n true blanks = (w.heap.objects.size,
      (w.heap.reserve n true).2.fill w.heap.objects.size [k.zero, .ofBool false]) := by
    cases k with
    | integer i => cases i <;> rfl
    | _ => rfl
  have hself : (w.heap.reserve n true).2.object? w.heap.objects.size = some ⟨n, true, []⟩ := by
    rw [Heap.object?_reserve, if_pos rfl]
  obtain ⟨d, hd, he⟩ := Option.map_eq_some_iff.mp h
  obtain rfl := Option.some.inj (hn.symm.trans hd)
  have he : ((w.heap.allocate n true blanks).1, { w with heap := (w.heap.allocate n true blanks).2 }) =
    (o, w') := he
  rw [hplaced] at he
  obtain ⟨rfl, rfl⟩ := Prod.mk.inj he
  show ((w.heap.reserve n true).2.fill w.heap.objects.size _).object? w.heap.objects.size = _
  rw [Heap.object?_fill, if_pos rfl, hself]
  rfl

/-! ## Statics that are given their values -/

section
variable (hw : w.Settled) (hd : w.schema.static? t name = some d) (hy : w.heap.Yields heap vs)
variable (hnew : ∀ {y}, d.body = .blank → v = .object y → heap.isByValue (.object y) = true →
  w.heap.objects.size ≤ y ∧ heap.Loose y)
include hw hd hy hnew

/-- What statics keep for themselves is new, or they kept it before. -/
theorem kept_of_keep {y : ObjectId} (hk : Kept (World.keep { w with heap } t name v) y) :
    (w.heap.objects.size ≤ y ∧ heap.Loose y) ∨ w.Kept y := by
  obtain ⟨hb, t', name', d', hd', hbody, hmem⟩ := hk
  rcases List.mem_cons.mp hmem with he | hmem
  · obtain ⟨hkey, rfl⟩ := Prod.mk.inj he
    obtain ⟨rfl, rfl⟩ := Prod.mk.inj hkey
    obtain rfl := Option.some.inj (hd.symm.trans hd')
    exact .inl (hnew hbody rfl hb)
  · have hlt : y < w.heap.objects.size := hw.secluded.known hmem
    exact .inr (kept_of_heap hy.grows hlt ⟨hb, t', name', d', hd', hbody, hmem⟩)

theorem Handed.keep {u : Value} (hu : w.Handed u) :
    Handed (World.keep { w with heap } t name v) u where
  known := hu.known.mono hy.grows
  free {y} he hk := by
    rcases kept_of_keep hw hd hy hnew hk with ⟨hle, -⟩ | hold
    · have hknown := hu.known
      rw [he] at hknown
      exact Nat.not_lt_of_le hle hknown
    · exact hu.free he hold

variable (hv : v.Known heap)
variable (hblank : ∀ {n type k settable}, t = .cls n → name = Nullable.sentinelName →
  w.schema.class? n = some (Nullable.decl type k settable) →
    ∃ y, v = .object y ∧ heap.object? y = some ⟨n, true, [k.zero, .ofBool false]⟩)
include hv hblank

/-- What statics keep for themselves stays secluded. -/
theorem Secluded.keep : Secluded (World.keep { w with heap } t name v) := by
  -- a static has what it had before, or it is the one that is given its value
  have hstatics : ∀ {key u}, (key, u) ∈ (World.keep { w with heap } t name v).statics →
      key = (t, name) ∧ u = v ∨ (key, u) ∈ w.statics := by
    intro key u hmem
    exact (List.mem_cons.mp hmem).imp_left Prod.mk.inj
  have hhanded : ∀ u, w.Handed u → Handed (World.keep { w with heap } t name v) u :=
    fun _ => .keep hw hd hy hnew
  refine
    { declared := fun {t' name' u} hmem => ?declared
      known := fun {t' name' u} hmem => ?known
      loose := fun hk => ?loose
      parameters := fun {c us} hp u hu => ?parameters
      literals := hw.secluded.literals.imp hhanded
      given := fun hr => (hw.secluded.given hr).imp hhanded
      blank := fun {n type k settable u} hn hmem => ?blank }
  case declared =>
    rcases hstatics hmem with ⟨hkey, -⟩ | hmem
    · obtain ⟨rfl, rfl⟩ := Prod.mk.inj hkey
      exact ⟨d, hd⟩
    · exact hw.secluded.declared hmem
  case known =>
    rcases hstatics hmem with ⟨-, rfl⟩ | hmem
    · exact hv
    · exact (hw.secluded.known hmem).mono hy.grows
  case loose =>
    rcases kept_of_keep hw hd hy hnew hk with ⟨-, hloose⟩ | hold
    · exact hloose
    · exact (Heap.Loosens.of_yields hy).loose (hw.secluded.loose hold) hold.lt_size hold.1
  case parameters =>
    change heap.parameters? c = some us at hp
    rw [Heap.parameters?, hy.carriers] at hp
    exact hhanded u (hw.secluded.parameters hp u hu)
  case blank =>
    rcases hstatics hmem with ⟨hkey, rfl⟩ | hmem
    · obtain ⟨ht, hname⟩ := Prod.mk.inj hkey
      exact hblank ht.symm hname.symm hn
    · obtain ⟨y, rfl, hobject⟩ := hw.secluded.blank hn hmem
      exact ⟨y, rfl, hy.old hobject⟩

/-- **A static is given its value.** What it is to keep for itself is new, and no field holds it. -/
theorem Guards.keep (hb : w.heap.Brings w.schema.Forms heap) :
    w.Guards (World.keep { w with heap } t name v) := by
  have hformed := hb.formed hw.formed.heap
  have htends : w.Tends (World.keep { w with heap } t name v) :=
    ⟨hy.grows, fun _ => (Works.leads ⟨rfl, rfl, rfl, rfl, hy.grows, hformed.within⟩),
      fun _ h => ⟨hy.tidy, h.literals.imp fun _ hu => hu.mono hy.grows⟩⟩
  exact {
    tends := htends
    schema := .refl _
    loosens := .of_yields hy
    handed := .keep hw hd hy hnew
    formed := fun _ => ⟨hw.formed.schema, hformed⟩
    secluded := fun _ => .keep hw hd hy hnew hv hblank }

end

/-- A static that is computed by a routine keeps nothing for itself. -/
theorem Guards.keep_routine (hw : w.Settled) {body : Routine} (hd : w.schema.static? t name = some d)
    (hbody : d.body = .routine body) (hv : v.Known w.heap) : w.Guards (w.keep t name v) := by
  refine .keep hw hd (Heap.Yields.nil hw.tidy.heap) (fun hb => ?_) hv
    (fun {n type k settable} ht hname hn => ?_) (.refl _)
  · rw [hbody] at hb
    cases hb
  · -- the static of a wrapper is not computed by a routine
    subst ht hname
    rw [Schema.static?, show w.schema.decl? (.cls n) = _ from hn] at hd
    obtain rfl := Option.some.inj hd
    cases hbody

/-- A static of what cannot be created keeps null. -/
theorem Guards.keep_null (hw : w.Settled) (hd : w.schema.static? t name = some d)
    (hn : w.newObject t = none) : w.Guards (w.keep t name .null) := by
  refine .keep hw hd (Heap.Yields.nil hw.tidy.heap) (fun {y} _ he => ?_) trivial
    (fun {n type k settable} ht _ hn' => ?_) (.refl _)
  · cases he
  · subst ht
    rw [World.newObject, hn'] at hn
    cases hn

/-- A static that is made blank keeps a new object. -/
theorem Guards.keep_blank (hw : w.Settled) (hd : w.schema.static? t name = some d) {o : ObjectId}
    (hn : w.newObject t = some (o, w')) : w.Guards (w'.keep t name (.object o)) := by
  obtain ⟨heap, rfl, hyields, hbrings⟩ := World.newObject_yields hw hn
  have hmem : Value.object o ∈ [Value.object o] := List.mem_singleton.mpr rfl
  refine .keep hw hd hyields (fun {y} _ he hb => ?_) (hyields.known _ hmem)
    (fun {n type k settable} ht _ hn' => ?_) hbrings
  · obtain rfl := Value.object.inj he
    exact ⟨hyields.new o hmem hb, hyields.loose o hmem hb⟩
  · subst ht
    exact ⟨o, rfl, World.newObject_nullable hn' hn⟩

end World

namespace Regime

open Run

variable {w : World}

/-- What is to be stored for a value can be come by, even if the value cannot. -/
theorem keeps_assign {v : Value} (hw : w.Settled) (hv : v.Known w.heap) :
    guarded.Keeps w (assign v) World.Handed := by
  obtain ⟨hyields, -⟩ := Heap.assign_spec hw.tidy.heap hv
  have hbrings := Heap.assign_brings hw.tidy.heap hw.formed.heap hv
  refine ⟨.of_yields hw hyields hbrings, fun u hu => ?_⟩
  obtain rfl := Except.ok.inj hu
  exact .of_yields hw.secluded hyields (List.mem_singleton.mpr rfl)

/-- A run that begins as another one does from a later world. -/
theorem Keeps.later {G : Regime} {α : Type} {x y : Run α} {Q : World → α → Prop} {u : World}
    (hx : x w = y u) (hl : G.Leads w u) (hy : G.Keeps u y Q) : G.Keeps w x Q := by
  rw [Keeps, hx]
  exact ⟨G.trans hl hy.1, hy.2⟩

end Regime

end RecordForge
