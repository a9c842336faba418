import RecordForge.Proofs.Access.Deeds

/-!
# Objects that nothing mentions

Objects that are held by value, with what they hold, may be held by no field of another object, and be
mentioned by no carrier, no body and no provider (`World.Hides`). Then bodies do not come across them, so
everything that is done without being given one of them leaves all of them as they are
(`World.Shuns`, `Regime.sparing`), however often something is done (`World.shuns_of_bypasses`). A static may
have such an object for its value: whoever reads the static is given a copy.
-/

namespace RecordForge

open Relation (ReflTransGen)

namespace World

/-- A value that can be come by, and is none of some objects. -/
def Clear (w : World) (K : ObjectId → Prop) (v : Value) : Prop :=
  w.Handed v ∧ ∀ y, v = .object y → ¬K y

/-- Some objects are held by value, with what they hold, and nothing else mentions any of them. A static
may. -/
structure Hides (w : World) (K : ObjectId → Prop) : Prop where
  byValue : ∀ {y}, K y → w.heap.isByValue (.object y) = true
  parts : ∀ {y z k}, K y → w.heap.field? y k = some (.object z) →
    w.heap.isByValue (.object z) = true → K z
  holders : ∀ {a y k}, K y → w.heap.field? a k = some (.object y) → K a
  parameters : ∀ {c : CarrierId} {vs}, w.heap.parameters? c = some vs → ∀ v ∈ vs, w.Clear K v
  literals : w.schema.Literals (w.Clear K)
  given : ∀ {r : RegistryId} {registry}, w.registries[r]? = some registry →
    registry.provider.Gives (w.Clear K) w.schema

/-- A run leaves some objects as they are, if nothing mentions them, and goes on to let nothing mention
them. No static is given another value. -/
structure Shuns (K : ObjectId → Prop) (w w' : World) : Prop where
  guards : w.Guards w'
  same : ∀ {y i}, K y → w.heap.object? y = some i → w'.heap.object? y = some i
  statics : ∀ {key v}, w.statics.lookup key = some v → w'.statics.lookup key = some v
  hides : w.Settled → w.Hides K → w'.Hides K

variable {K : ObjectId → Prop} {w w' w'' : World} {heap : Heap} {v : Value} {vs : List Value}

theorem Shuns.refl (w : World) : w.Shuns K w where
  guards := .refl w
  same _ hi := hi
  statics hl := hl
  hides _ hs := hs

theorem Shuns.trans (h : w.Shuns K w') (h' : w'.Shuns K w'') : w.Shuns K w'' where
  guards := h.guards.trans h'.guards
  same hy hi := h'.same hy (h.same hy hi)
  statics hl := h'.statics (h.statics hl)
  hides hw hs := h'.hides (h.guards.settled hw) (h.hides hw hs)

/-- Nothing comes to mention the objects while none of them changes, and while carriers, bodies and
providers mention only what is clear. -/
theorem Hides.of_guards (hw : w.Settled) (hs : w.Hides K) (hg : w.Guards w')
    (hsame : ∀ {y i}, K y → w.heap.object? y = some i → w'.heap.object? y = some i)
    (hparameters : ∀ {c : CarrierId} {vs}, w'.heap.parameters? c = some vs → ∀ v ∈ vs, w.Clear K v)
    (hliterals : w'.schema.Literals (w.Clear K))
    (hgiven : ∀ {r : RegistryId} {registry}, w'.registries[r]? = some registry →
      registry.provider.Gives (w.Clear K) w'.schema) : w'.Hides K := by
  have hclear : ∀ v, w.Clear K v → w'.Clear K v := fun v hv => ⟨hg.handed hv.1, hv.2⟩
  have hbyValue : ∀ {y}, K y → w'.heap.isByValue (.object y) = true := by
    intro y hy
    rw [hg.loosens.grows.isByValue_eq (v := .object y) (Heap.lt_of_isByValue (hs.byValue hy))]
    exact hs.byValue hy
  constructor
  · exact hbyValue
  · -- the fields of the objects are as they were
    intro y z k hy hf hb
    obtain ⟨i, hi, -⟩ := Heap.isByValue_object.mp (hs.byValue hy)
    rw [Heap.field?_congr ((hsame hy hi).trans hi.symm)] at hf
    rw [hg.loosens.grows.isByValue_eq (v := .object z) (hw.tidy.heap.known hf)] at hb
    exact hs.parts hy hf hb
  · -- and no field of another object takes them in
    intro a y k hy hf
    have hlt := Heap.lt_of_isByValue (hs.byValue hy)
    exact hs.holders hy (hg.loosens.held hlt (hbyValue hy) hf)
  · exact fun hc v hv => hclear v (hparameters hc v hv)
  · exact hliterals.imp hclear
  · exact fun hr => (hgiven hr).imp hclear

/-- A heap that changes elsewhere only. -/
theorem Shuns.of_heap (hg : w.Guards { w with heap })
    (hsame : ∀ {y i}, K y → w.heap.object? y = some i → heap.object? y = some i)
    (hparameters : w.Hides K → ∀ {c : CarrierId} {vs}, heap.parameters? c = some vs →
      ∀ v ∈ vs, w.Clear K v) : w.Shuns K { w with heap } where
  guards := hg
  same := hsame
  statics hl := hl
  hides hw hs := hs.of_guards hw hg hsame (hparameters hs) hs.literals hs.given

/-- What carriers hold is clear as before, if it is as it was. -/
theorem Hides.clear_parameters (hs : w.Hides K) (hc : heap.carriers = w.heap.carriers)
    {c : CarrierId} (hp : heap.parameters? c = some vs) : ∀ v ∈ vs, w.Clear K v := by
  rw [Heap.parameters?, hc] at hp
  exact hs.parameters hp

/-- An operation that changes no object that is there. -/
theorem Shuns.of_yields (hw : w.Settled) (hy : w.heap.Yields heap vs)
    (hb : w.heap.Brings w.schema.Forms heap) : w.Shuns K { w with heap } :=
  .of_heap (.of_yields hw hy hb) (fun _ hi => hy.old hi) fun hs _ _ hp => hs.clear_parameters hy.carriers hp

/-- What such an operation yields is clear. -/
theorem Clear.of_yields (hw : w.Settled) (hs : w.Hides K) (hy : w.heap.Yields heap vs) (hv : v ∈ vs) :
    Clear { w with heap } K v := by
  refine ⟨.of_yields hw.secluded hy hv, fun y he hK => ?_⟩
  have hb := hs.byValue hK
  have hlt := Heap.lt_of_isByValue hb
  -- it would be new
  have hle := hy.new y (he ▸ hv) ((hy.grows.isByValue_eq (v := .object y) hlt).trans hb)
  exact absurd hlt (Nat.not_lt_of_le hle)

/-- What is done to everything but the heap and the statics. -/
theorem Shuns.besides (hg : w.Guards w') (hheap : w'.heap = w.heap) (hstatics : w'.statics = w.statics)
    (hliterals : w.Settled → w.Hides K → w'.schema.Literals (w.Clear K))
    (hgiven : w.Settled → w.Hides K → ∀ {r : RegistryId} {registry},
      w'.registries[r]? = some registry → registry.provider.Gives (w.Clear K) w'.schema) :
    w.Shuns K w' where
  guards := hg
  same _ hi := hheap ▸ hi
  statics hl := hstatics ▸ hl
  hides hw hs := hs.of_guards hw hg (fun _ hi => hheap ▸ hi)
    (fun hp => hs.clear_parameters (congrArg Heap.carriers hheap) hp) (hliterals hw hs) (hgiven hw hs)

/-- A request makes classes whose bodies mention what providers give, and changes no provider. -/
theorem Hides.descriptorFor (hs : w.Hides K) (hw : w.Settled) {r : RegistryId} {registry : Registry}
    {t : Ty} {e : DescriptorId} (hr : w.registries[r]? = some registry)
    (he : w.descriptorFor r registry t = .ok (e, w')) :
    w'.schema.Literals (w.Clear K) ∧ ∀ {r' : RegistryId} {x}, w'.registries[r']? = some x →
      x.provider.Gives (w.Clear K) w'.schema := by
  have hliteral : ∀ v : Value, v.isLiteral = true → w.Clear K v := by
    intro v hv
    refine ⟨.of_isLiteral hv, ?_⟩
    rintro y rfl
    cases hv
  refine ⟨descriptorFor_literals hw.sound hr he hliteral (hs.given hr) hs.literals, ?_⟩
  intro r' x hx
  obtain ⟨x₀, hx₀, hp⟩ := descriptorFor_providers hr he hx
  rw [hp]
  refine (hs.given hx₀).schema hw.sound.proper.closed (descriptorFor_grows he).1 fun hd => ?_
  rcases descriptorFor_made hw.sound hr he hd with hold | ⟨hconcrete, -⟩
  · exact .inl hold
  · exact .inr hconcrete

theorem Shuns.resolve (hw : w.Settled) {l : LookupId} {x : Descriptor}
    (hl : w.resolve l = .ok (x, w')) : w.Shuns K w' := by
  have hg := Guards.resolve hw hl
  obtain ⟨lookup, -, ⟨-, rfl⟩ | ⟨-, registry, e, w₁, hr, -, hd, -, rfl⟩⟩ := resolve_eq_ok_iff.mp hl
  · exact .refl w'
  · have hstatics : w₁.statics = w.statics := descriptorFor_statics hd
    exact .besides hg (descriptorFor_grows hd).2 hstatics
      (fun hw hs => (hs.descriptorFor hw hr hd).1) fun hw hs => (hs.descriptorFor hw hr hd).2

/-- A static is given its value. -/
theorem Shuns.keep {t : Ty} {name : String}
    (hg : w.Guards (World.keep { w with heap } t name v)) (hl : w.statics.lookup (t, name) = none)
    (hy : w.heap.Yields heap vs) : w.Shuns K (World.keep { w with heap } t name v) where
  guards := hg
  same _ hi := hy.old hi
  statics {key u} hu := by
    rw [World.keep, List.lookup_cons]
    -- another static, since this one has had no value
    have hne : (key == (t, name)) = false := by
      rw [beq_eq_false_iff_ne]
      rintro rfl
      rw [hl] at hu
      cases hu
    rw [hne]
    exact hu
  hides hw hs := hs.of_guards hw hg (fun _ hi => hy.old hi)
    (fun hp => hs.clear_parameters hy.carriers hp) hs.literals hs.given

end World

/-- **Bodies leave alone what nothing mentions**, as long as they are not given it. -/
def Regime.sparing (K : ObjectId → Prop) : Regime where
  Inv w := w.Settled ∧ w.Hides K
  Admits w v := w.Clear K v
  Opens w o := w.Clear K (.object o)
  Leads w w' := w.Shuns K w'
  refl := .refl
  trans := .trans
  inv hw h := ⟨h.guards.settled hw.1, h.hides hw.1 hw.2⟩
  mono h hv := ⟨h.guards.handed hv.1, hv.2⟩
  opens_mono h ho := ⟨h.guards.handed ho.1, ho.2⟩
  admits ho := ho
  encloses _ ho := .inl ho
  literal hv := by
    refine ⟨.of_isLiteral hv, ?_⟩
    rintro y rfl
    cases hv
  literals hw := hw.2.literals
  field {w o k v} hw ho hf := by
    refine ⟨Regime.guarded.field hw.1 ho.1 hf, ?_⟩
    rintro y rfl hy
    exact ho.2 o rfl (hw.2.holders hy (World.field_eq_ok_iff.mp hf))
  parameters hw _ hp := hw.2.parameters hp
  store {w w' o k v} hw ho hv h := by
    have hguards := World.Guards.setField hw.1 ho.1 hv.1 h
    obtain ⟨heap, hstore, rfl⟩ := World.setField_eq_ok_iff.mp h
    refine .of_heap hguards (fun {y i} hy hi => ?_) fun hs _ _ hp => ?_
    · have hne : y ≠ o := by
        rintro rfl
        exact ho.2 y rfl hy
      exact (Heap.store_spec hw.1.tidy.heap hv.1.known hstore).1.others hne hi
    · exact hs.clear_parameters (Heap.store_carriers hstore) hp
  allocate {w w' t o} hw hn := by
    obtain ⟨heap, rfl, hyields, hbrings⟩ := World.newObject_yields hw.1 hn
    exact ⟨.of_yields hw.1 hyields hbrings, .of_yields hw.1 hw.2 hyields (List.mem_singleton.mpr rfl)⟩
  carrier {w c heap} hw he := by
    obtain ⟨hguards, hc⟩ := Regime.guarded.carrier hw.1 he
    refine ⟨.of_heap hguards (fun _ hi => ?_) fun hs {c' vs} hp => ?_, hc, fun _ hy => nomatch hy⟩
    · cases he
      exact hi
    · cases he
      have hp : ((w.heap.carriers.push none)[c']?).join = some vs := hp
      rw [Array.getElem?_push] at hp
      split at hp
      · cases hp
      · exact hs.parameters hp
  setParameters {w c values} hw hc hvs := by
    have hguards := Regime.guarded.setParameters hw.1 hc.1 fun vs h v hv => (hvs vs h v hv).1
    refine .of_heap hguards (fun _ hi => hi) fun hs {c' vs} hp => ?_
    have hp : ((w.heap.carriers.setIfInBounds c values)[c']?).join = some vs := hp
    rw [Array.getElem?_setIfInBounds] at hp
    split at hp
    · split at hp
      · exact hvs vs hp
      · cases hp
    · exact hs.parameters hp
  observe w e :=
    .besides (Regime.guarded.observe w e) rfl rfl (fun _ hs => hs.literals) fun _ hs => hs.given
  spend w site :=
    .besides (Regime.guarded.spend w site) rfl rfl (fun _ hs => hs.literals) fun _ hs => hs.given
  resolve hw hl := .resolve hw.1 hl

instance {K : ObjectId → Prop} : (Regime.sparing K).IsOpen := ⟨fun ho => ho⟩

/-! ## What is done from outside -/

namespace Regime

open Run

variable {K : ObjectId → Prop} {w : World} {v : Value}

/-- What is to be stored for a value is clear, also if the value is one of the objects. -/
theorem sparing_assign (hw : w.Settled) (hs : w.Hides K) (hv : v.Known w.heap) :
    (sparing K).Keeps w (assign v) fun w' u => w'.Clear K u := by
  obtain ⟨hyields, -⟩ := Heap.assign_spec hw.tidy.heap hv
  have hbrings := Heap.assign_brings hw.tidy.heap hw.formed.heap hv
  refine ⟨.of_yields hw hyields hbrings, fun u hu => ?_⟩
  obtain rfl := Except.ok.inj hu
  exact .of_yields hw hs hyields (List.mem_singleton.mpr rfl)

/-- Also a static that has one of the objects for its value gives none of them. -/
theorem sparing_serves (K : ObjectId → Prop) : (sparing K).Serves where
  settled hw := hw.1
  guards h := h.guards
  known hv := hv.1.known
  copy hw ho := by
    have hbrings := Heap.copy_brings hw.1.tidy.heap hw.1.formed.heap ho.1.known
    exact ⟨.of_yields hw.1 (Heap.copy_yields hw.1.tidy.heap ho.1.known) hbrings, fun _ _ => trivial⟩
  assign hw hv := sparing_assign hw.1 hw.2 hv
  blankValue {w} t hw := by
    have hbrings := Heap.place_brings w.heap (hw.1.formed.schema.blank t)
    exact ⟨.of_yields hw.1 (Heap.place_yields hw.1.tidy.heap _) hbrings, fun _ _ => trivial⟩
  keep _ hl _ hy hguards := .keep hguards hl hy

end Regime

/-! ## Runs that pass by -/

/-- A deed is done that is given none of some objects, or something else happens and nothing comes to
mention them. -/
inductive World.Bypasses (K : ObjectId → Prop) : World → World → Prop
  | deed {w : World} {d : Deed} (depth : Nat) (hd : ∀ v ∈ d.given w, w.Clear K v) :
      Bypasses K w (d.run depth w).2
  | besides {w w' : World} (hm : w.Moves w') (hheap : w'.heap = w.heap)
      (hstatics : w'.statics = w.statics) (hliterals : w'.schema.Literals (w.Clear K))
      (hgiven : ∀ {r : RegistryId} {registry}, w'.registries[r]? = some registry →
        registry.provider.Gives (w.Clear K) w'.schema) : Bypasses K w w'

namespace World

variable {K : ObjectId → Prop} {w w' : World}

theorem Bypasses.shuns (hw : w.Settled) (hs : w.Hides K) (h : Bypasses K w w') : w.Shuns K w' := by
  cases h with
  | deed depth hd => exact (Regime.keeps_given (Regime.sparing_serves K) ⟨hw, hs⟩ hd depth).1
  | besides hm hheap hstatics hliterals hgiven =>
    exact .besides (hm.guards hw) hheap hstatics (fun _ _ => hliterals) fun _ _ => hgiven

/-- **However often something is done** that is given none of the objects, they stay as they are. -/
theorem shuns_of_bypasses (hw : w.Settled) (hs : w.Hides K) (h : ReflTransGen (Bypasses K) w w') :
    w.Shuns K w' := by
  induction h with
  | refl => exact .refl w
  | tail _ hstep ih => exact ih.trans (hstep.shuns (ih.guards.settled hw) (ih.hides hw hs))

/-- No object at all is mentioned. -/
theorem Settled.hides_nothing (hw : w.Settled) : w.Hides fun _ => False := by
  have hclear : ∀ v, w.Handed v → w.Clear (fun _ => False) v := fun v hv => ⟨hv, fun _ _ => id⟩
  constructor
  · exact fun h => h.elim
  · exact fun h => h.elim
  · exact fun h => h.elim
  · exact fun hp v hv => hclear v (hw.secluded.parameters hp v hv)
  · exact hw.secluded.literals.imp hclear
  · exact fun hr => (hw.secluded.given hr).imp hclear

/-- **A static that has its value keeps it**, whatever happens. -/
theorem Moves.statics (hw : w.Settled) (h : w.Moves w') {key : Ty × String} {v : Value}
    (hl : w.statics.lookup key = some v) : w'.statics.lookup key = some v := by
  cases h with
  | deed depth hd =>
    have hkeeps := Regime.keeps_given (Regime.sparing_serves fun _ => False) ⟨hw, hw.hides_nothing⟩
      (fun v hv => ⟨hd v hv, fun _ _ => id⟩) depth
    exact hkeeps.1.statics hl
  | request _ hd => exact descriptorFor_statics hd ▸ hl
  | map _ hm => exact mapperFor_statics hm ▸ hl
  | declare => exact hl
  | enumerate => exact hl
  | openRegistry => exact hl
  | dropRegistry => exact hl

theorem Later.statics (hw : w.Settled) (h : w.Later w') {key : Ty × String} {v : Value}
    (hl : w.statics.lookup key = some v) : w'.statics.lookup key = some v := by
  induction h with
  | refl => exact hl
  | tail hlater hm ih => exact hm.statics ((Later.guards hw hlater).settled hw) ih

end World

end RecordForge
