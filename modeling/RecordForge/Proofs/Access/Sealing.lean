import RecordForge.Proofs.Access.Deeds

/-!
# Nullable wrappers are closed

Nothing but the bodies of a nullable wrapper stores into its two slots, unless somebody reaches past them.
So a wrapper is as it was made, with no value, or it holds a value of its kind (`Kind.Fills`). That goes on
to hold of all wrappers of some classes while objects are created, copied and changed, as long as no body
but their own runs on them and nothing is stored into their slots from outside (`Regime.sealing`).
-/

namespace RecordForge

open Run

/-! ## What wrappers hold -/

/-- The fields of a nullable wrapper of a kind that nobody has reached into. -/
inductive Kind.Fills (κ : Kind) : List Value → Prop
  | absent : Fills κ [κ.zero, .ofBool false]
  | present {u : Value} (hu : ∀ (s : Schema) h, s.cast h u (.scalar κ) = .ok u) :
      Fills κ [u, .ofBool true]

/-- Whether a value may be stored where a kind is expected depends on nothing else. -/
theorem Schema.cast_scalar_anywhere {s : Schema} {h : Heap} {v u : Value} {κ : Kind}
    (hu : s.cast h v (.scalar κ) = .ok u) (s' : Schema) (h' : Heap) :
    s'.cast h' v (.scalar κ) = .ok v := by
  have hne : Ty.scalar κ ≠ .any := nofun
  rw [cast, if_neg hne] at hu ⊢
  split at hu
  · next hnull =>
    rw [if_pos hnull]
    split at hu
    · cases hu
    · next hexcludes => exact if_neg hexcludes
  · next hnull =>
    rw [if_neg hnull]
    split at hu
    · next hadmits => exact if_pos hadmits
    · cases hu

theorem Kind.Fills.isLiteral {κ : Kind} {fields : List Value} (h : κ.Fills fields) :
    ∀ v ∈ fields, v.isLiteral = true := by
  intro v hv
  cases h with
  | absent =>
    rcases List.mem_pair.mp hv with rfl | rfl
    · exact κ.isLiteral_zero
    · rfl
  | present hu =>
    rcases List.mem_pair.mp hv with rfl | rfl
    · exact Schema.isLiteral_of_cast_scalar (hu {} {})
    · rfl

/-- The constructor of a wrapper tells its kind. -/
theorem Nullable.kind_eq_of_decl {type type' : String} {κ κ' : Kind} {settable settable' : Bool}
    (h : Nullable.decl type κ settable = Nullable.decl type' κ' settable') : κ = κ' := by
  have hconstructors := congrArg ClassDecl.constructors h
  obtain ⟨hfirst, -⟩ := List.cons.inj hconstructors
  exact Ty.scalar.inj (List.singleton_inj.mp (congrArg ConstructorDecl.params hfirst))

/-- A new object of a class among some, if that is a wrapper, has the face of one that nobody has reached
into. -/
def Schema.Unspoiled (s : Schema) (N : ClassId → Prop) (face : Face) : Prop :=
  ∀ {type κ settable}, N face.cls → s.class? face.cls = some (Nullable.decl type κ settable) →
    ∃ fields, κ.Fills fields ∧ face.fields = fields.map Value.face

/-- Blank wrappers hold no value. -/
theorem Schema.Models.unspoiled {s : Schema} {N : ClassId → Prop} {face : Face} (h : s.Models face) :
    s.Unspoiled N face := by
  intro type κ settable _ hn
  obtain ⟨d, hd, hfields⟩ := h
  obtain rfl := Option.some.inj (hd.symm.trans hn)
  refine ⟨_, .absent, hfields.trans ?_⟩
  cases κ with
  | integer i => cases i <;> rfl
  | _ => rfl

/-! ## Worlds with intact wrappers -/

namespace World

/-- The wrappers among the objects of some classes are ones that nobody has reached into. -/
structure Intact (N : ClassId → Prop) (w : World) : Prop where
  modelled : w.schema.Modelled
  fills : ∀ {o i type κ settable}, w.heap.object? o = some i → N i.cls →
    w.schema.class? i.cls = some (Nullable.decl type κ settable) → κ.Fills i.fields

/-- An object is no wrapper of one of some classes. -/
def Plain (N : ClassId → Prop) (w : World) (o : ObjectId) : Prop :=
  ∀ i, w.heap.object? o = some i → N i.cls → ∃ d, w.schema.class? i.cls = some d ∧
    ∀ type κ settable, d ≠ Nullable.decl type κ settable

/-- A run leads from a settled world to a settled one, and reaches into no wrapper. -/
structure Seals (N : ClassId → Prop) (w w' : World) : Prop where
  guards : w.Guards w'
  intact : w.Settled → w.Intact N → w'.Intact N

variable {N : ClassId → Prop} {w w' w'' : World} {heap : Heap} {o : ObjectId} {n : ClassId} {v : Value}
variable {vs : List Value} {type : String} {κ : Kind} {settable : Bool}

theorem Seals.refl (w : World) : w.Seals N w := ⟨.refl w, fun _ => id⟩

theorem Seals.trans (h : w.Seals N w') (h' : w'.Seals N w'') : w.Seals N w'' :=
  ⟨h.guards.trans h'.guards, fun hw hi => h'.intact (h.guards.settled hw) (h.intact hw hi)⟩

/-- An object stays what it is. -/
theorem Plain.later (h : w.Plain N o) (ho : o < w.heap.objects.size) (hg : w.Guards w') :
    w'.Plain N o := by
  intro j hj hmem
  obtain ⟨i, hi⟩ := Heap.exists_object? ho
  obtain ⟨j', hj', hshape⟩ := hg.loosens.grows.objects hi
  obtain rfl := Option.some.inj (hj'.symm.trans hj)
  have hcls : j'.cls = i.cls := congrArg Shape.cls hshape
  obtain ⟨d, hd, hother⟩ := h i hi (hcls ▸ hmem)
  exact ⟨d, hcls ▸ hg.schema.classes hd, hother⟩

/-- An instance of a wrapper has two fields. -/
theorem Formed.fields_of_classOf (hw : w.Formed)
    (hn : w.schema.class? n = some (Nullable.decl type κ settable)) (ho : w.classOf o = .cls n) :
    ∃ a b, w.heap.object? o = some ⟨n, true, [a, b]⟩ := by
  have hinstance : w.isInstance o (.cls n) = true := by
    rw [isInstance, ho, Schema.isAssignable, beq_self_eq_true, Bool.true_or]
  cases hi : w.heap.object? o with
  | none =>
    rw [classOf, Schema.classOf, hi] at ho
    cases ho
  | some i => exact hi ▸ hw.fields_nullable hn (Heap.lt_of_object? hi) hinstance

/-- What is not plain is a wrapper. -/
theorem Settled.exists_wrapper (hw : w.Settled) (h : ¬w.Plain N o) :
    ∃ n type κ settable, N n ∧ w.schema.class? n = some (Nullable.decl type κ settable) ∧
      ∃ a b, w.heap.object? o = some ⟨n, true, [a, b]⟩ := by
  simp only [Plain, not_forall] at h
  obtain ⟨i, hi, hmem, hwrapper⟩ := h
  obtain ⟨d, hd, -⟩ := hw.formed.heap o i hi
  obtain ⟨type, κ, settable, rfl⟩ : ∃ type κ settable, d = Nullable.decl type κ settable := by
    by_contra hno
    exact hwrapper ⟨d, hd, fun type κ settable he => hno ⟨type, κ, settable, he⟩⟩
  exact ⟨i.cls, type, κ, settable, hmem, hd, hw.formed.fields_of_classOf hd (classOf_eq hi)⟩

theorem Intact.unspoiled (h : w.Intact N) {i : Instance} (hi : w.heap.object? o = some i) :
    w.schema.Unspoiled N i.face :=
  fun hmem hn => ⟨i.fields, h.fills hi hmem hn, rfl⟩

/-- Objects are made, of such faces. -/
theorem Intact.of_gains (h : w.Intact N) (hg : w.heap.Gains (w.schema.Unspoiled N) heap) :
    Intact N { w with heap } := by
  refine ⟨h.modelled, fun {o i type κ settable} hi hmem hn => ?_⟩
  obtain ⟨fields, hfills, he⟩ := hg.all (fun hi => h.unspoiled hi) hi hmem hn
  rw [Value.eq_of_faces hfills.isLiteral he]
  exact hfills

/-- Classes are declared that have no instances yet. -/
theorem Intact.extend (h : w.Intact N) (hw : w.Settled) (hheap : w'.heap = w.heap)
    (he : w.schema.Extends w'.schema) (hmodelled : w'.schema.Modelled) : w'.Intact N := by
  refine ⟨hmodelled, fun {o i type κ settable} hi hmem hn => ?_⟩
  rw [hheap] at hi
  obtain ⟨d, hd, -⟩ := hw.formed.heap o i hi
  obtain rfl := Option.some.inj ((he.classes hd).symm.trans hn)
  exact h.fills hi hmem hd

theorem Seals.of_yields (hw : w.Settled) (hi : w.Intact N) (hy : w.heap.Yields heap vs)
    (hb : w.heap.Brings w.schema.Forms heap) (hg : w.heap.Gains (w.schema.Unspoiled N) heap) :
    w.Seals N { w with heap } :=
  ⟨.of_yields hw hy hb, fun _ _ => hi.of_gains hg⟩

/-- A new object has the faces that its class says. -/
theorem newObject_gains (h : w.schema.Modelled) {t : Ty} (hn : w.newObject t = some (o, w')) :
    w.heap.Gains w.schema.Models w'.heap := by
  cases t with
  | cls c =>
    obtain ⟨d, hd, he⟩ := Option.map_eq_some_iff.mp hn
    obtain ⟨rfl, rfl⟩ := Prod.mk.inj he
    exact Heap.allocate_gains (Schema.models_blank hd d.isValueType) (h.layout hd)
  | any => cases hn
  | carrier => cases hn
  | scalar k => cases hn
  | enum e => cases hn

/-- What is done neither to objects nor to classes. -/
theorem Seals.of_objects (hg : w.Guards w') (hschema : w'.schema = w.schema)
    (hobjects : w'.heap.objects = w.heap.objects) : w.Seals N w' := by
  refine ⟨hg, fun _ hi => ⟨hschema ▸ hi.modelled, fun {o i type κ settable} ho hmem hn => ?_⟩⟩
  rw [hschema] at hn
  rw [Heap.object?, hobjects] at ho
  exact hi.fills ho hmem hn

/-- What is done to no object. -/
theorem Seals.besides (hg : w.Guards w') (hheap : w'.heap = w.heap)
    (hmodelled : w.Settled → w.schema.Modelled → w'.schema.Modelled) : w.Seals N w' :=
  ⟨hg, fun hw hi => hi.extend hw hheap hg.schema (hmodelled hw hi.modelled)⟩

/-- The blanks of implementations are those of their fields. -/
theorem modelled_descriptorFor (hw : w.Settled) (h : w.schema.Modelled) {r : RegistryId}
    {registry : Registry} {t : Ty} {e : DescriptorId} (hr : w.registries[r]? = some registry)
    (he : w.descriptorFor r registry t = .ok (e, w')) : w'.schema.Modelled := by
  refine h.extend (descriptorFor_grows he).1 fun hd => ?_
  rcases descriptorFor_made hw.sound hr he hd with hold | ⟨-, ⟨i, b, rfl, -, hb, -⟩, -⟩
  · exact .inl hold
  · exact .inr (Schema.draws_implementation hb)

theorem Seals.resolve (hw : w.Settled) {l : LookupId} {x : Descriptor}
    (hl : w.resolve l = .ok (x, w')) : w.Seals N w' := by
  have hg := Guards.resolve hw hl
  obtain ⟨lookup, -, ⟨-, rfl⟩ | ⟨-, registry, e, w₁, hr, -, hd, -, rfl⟩⟩ := resolve_eq_ok_iff.mp hl
  · exact .refl w'
  · refine .besides hg (descriptorFor_grows hd).2 fun hw h => ?_
    have hmodelled : w₁.schema.Modelled := modelled_descriptorFor hw h hr hd
    exact hmodelled

/-- A value is stored into an object that is no wrapper. -/
theorem Seals.store (hw : w.Settled) (hi : w.Intact N) {k : Nat} (ho : w.Handed (.object o))
    (hp : w.Plain N o) (hv : w.Handed v) (h : w.setField o k v = .ok w') : w.Seals N w' := by
  have hg := Guards.setField hw ho hv h
  refine ⟨hg, fun _ _ => ?_⟩
  obtain ⟨heap, hstore, rfl⟩ := setField_eq_ok_iff.mp h
  obtain ⟨i₀, hi₀, -, rfl⟩ := Heap.store_eq_some_iff.mp hstore
  have hgains := Heap.assign_gains (F := w.schema.Unspoiled N) hw.tidy.heap
    (fun hi' => hi.unspoiled hi') hv.known
  refine ⟨hi.modelled, fun {a i type κ settable} ha hmem hn => ?_⟩
  by_cases hao : a = o
  · subst hao
    obtain ⟨j, hj, hshape⟩ := hg.loosens.grows.objects hi₀
    obtain rfl := Option.some.inj (hj.symm.trans ha)
    have hcls : j.cls = i₀.cls := congrArg Shape.cls hshape
    obtain ⟨d, hd, hother⟩ := hp i₀ hi₀ (hcls ▸ hmem)
    obtain rfl := Option.some.inj (hd.symm.trans (hcls ▸ hn))
    exact absurd rfl (hother type κ settable)
  · rw [Heap.object?_put, if_neg hao] at ha
    exact (hi.of_gains hgains).fills ha hmem hn

/-! ## The bodies of wrappers -/

section
variable (hn : w.schema.class? n = some (Nullable.decl type κ settable))
include hn

/-- An accessor of a wrapper is one of its two properties. -/
theorem accessor_nullable {α : Type} {part : PropertyDecl → Option (Accessor α)} {name : String}
    {a : Accessor α} (h : w.schema.accessor? part (.cls n) name = some a) :
    ∃ p ∈ (Nullable.decl type κ settable).properties, part p = some a := by
  rw [Schema.accessor?, Schema.lineage_nullable hn] at h
  obtain ⟨⟨u, d⟩, hmem, hfound⟩ := List.exists_of_findSome?_eq_some h
  obtain ⟨rfl, rfl⟩ := Prod.mk.inj (List.mem_singleton.mp hmem)
  obtain ⟨p, hp, ha⟩ := Option.bind_eq_some_iff.mp hfound
  exact ⟨p, List.mem_of_find?_eq_some hp, ha⟩

/-- Dispatch on a wrapper finds nothing but its own bodies. -/
theorem encloses_nullable (ho : w.classOf o = .cls n) : w.Encloses κ o where
  getter {name g} hg := by
    rw [ho, Schema.getterFor, Schema.bodyOf_eq_ok_iff] at hg
    obtain ⟨p, hp, hbody⟩ := accessor_nullable hn hg
    rcases List.mem_pair.mp hp with rfl | rfl
    · cases hbody
      exact .inl rfl
    · cases hbody
      exact .inr ⟨type, rfl⟩
  setter {name g} hg := by
    rw [ho, Schema.setterFor, Schema.bodyOf_eq_ok_iff] at hg
    obtain ⟨p, hp, hbody⟩ := accessor_nullable hn hg
    rcases List.mem_pair.mp hp with rfl | rfl
    · cases hbody
    · cases settable <;> cases hbody
      rfl
  constructor {k m d} hd := by
    rw [ho, Schema.constructorFor_eq_ok_iff] at hd
    obtain ⟨d', hd', hmem⟩ := Schema.mem_constructors hd.1
    obtain rfl := Option.some.inj (hn.symm.trans hd')
    rcases List.mem_pair.mp hmem with rfl | rfl
    · exact .inl rfl
    · exact .inr rfl
  receiver := by
    rw [ho, Schema.receiver?, Schema.lineage_nullable hn]
    rfl

end

variable {a b : Value}

/-- Storing what is no object. -/
theorem setField_of_isLiteral {i : Instance} {k : Nat} (ho : w.heap.object? o = some i)
    (hk : k < i.fields.length) (hv : v.isLiteral = true) :
    w.setField o k v = .ok { w with heap := w.heap.put o k v } := by
  have hb : w.heap.isByValue v = false := by
    cases v with
    | object x => cases hv
    | _ => rfl
  refine setField_eq_ok_iff.mpr ⟨_, Heap.store_eq_some_iff.mpr ⟨i, ho, hk, rfl⟩, ?_⟩
  rw [Heap.assign_of_not_isByValue hb]

/-- The bodies of a wrapper give it a value of its kind. -/
theorem present_run (hx : w.heap.object? o = some ⟨n, true, [a, b]⟩)
    (hv : w.schema.cast w.heap v (.scalar κ) = .ok v) : ∃ heap,
      present κ o v w = (.ok (), { w with heap }) ∧
      heap.object? o = some ⟨n, true, [v, .ofBool true]⟩ ∧
      ∀ {y}, y ≠ o → heap.object? y = w.heap.object? y := by
  have hliteral := Schema.isLiteral_of_cast_scalar hv
  have hvalue := setField_of_isLiteral (k := Nullable.valueSlot) hx (Nat.zero_lt_succ 1) hliteral
  have hput : (w.heap.put o Nullable.valueSlot v).object? o = some ⟨n, true, [v, b]⟩ := by
    rw [Heap.object?_put, if_pos rfl, hx]
    rfl
  have hpresence := setField_of_isLiteral (w := { w with heap := w.heap.put o Nullable.valueSlot v })
    (k := Nullable.presenceSlot) (v := .ofBool true) hput (Nat.lt_succ_self 1) rfl
  refine ⟨(w.heap.put o Nullable.valueSlot v).put o Nullable.presenceSlot (.ofBool true), ?_, ?_,
    fun {y} hy => ?_⟩
  · rw [present, Run.cast, bind_of_ok (check_of_ok hv), bind_of_ok (change_of_ok hvalue)]
    exact change_of_ok hpresence
  · rw [Heap.object?_put, if_pos rfl, hput]
    rfl
  · rw [Heap.object?_put, if_neg hy, Heap.object?_put, if_neg hy]

/-- So they reach into no wrapper. -/
theorem Seals.present (hw : w.Settled) (hi : w.Intact N)
    (hn : w.schema.class? n = some (Nullable.decl type κ settable))
    (hx : w.heap.object? o = some ⟨n, true, [a, b]⟩) (ho : w.Handed (.object o)) (hv : w.Handed v) :
    w.Seals N (Run.present κ o v w).2 := by
  have hg := (Regime.keeps_present (G := .guarded) hw κ ho hv).1
  refine ⟨hg, fun _ _ => ?_⟩
  cases hcast : w.schema.cast w.heap v (.scalar κ) with
  | error e =>
    have hrun : Run.present κ o v w = (.error (.fault e), w) := by
      refine bind_of_error ?_
      rw [Run.cast, check_run, hcast]
    rw [hrun]
    exact hi
  | ok u =>
    have hanywhere := Schema.cast_scalar_anywhere hcast
    obtain ⟨heap, hrun, hself, hothers⟩ := present_run hx (hanywhere _ _)
    rw [hrun]
    refine ⟨hi.modelled, fun {y i type' κ' settable'} hy hmem hn' => ?_⟩
    by_cases hyo : y = o
    · -- the wrapper itself
      obtain rfl := Option.some.inj (hself.symm.trans (hyo ▸ hy))
      obtain rfl := Nullable.kind_eq_of_decl (Option.some.inj (hn.symm.trans hn'))
      exact .present hanywhere
    · exact hi.fills ((hothers hyo).symm.trans hy) hmem hn'

end World

/-- **Bodies reach into no wrapper** of some classes, as long as nobody stores into one from outside. -/
def Regime.sealing (N : ClassId → Prop) : Regime where
  Inv w := w.Settled ∧ w.Intact N
  Admits := World.Handed
  Opens w o := w.Handed (.object o) ∧ w.Plain N o
  Leads := World.Seals N
  refl := .refl
  trans := .trans
  inv hw h := ⟨h.guards.settled hw.1, h.intact hw.1 hw.2⟩
  mono h hv := h.guards.handed hv
  opens_mono h ho := ⟨h.guards.handed ho.1, ho.2.later ho.1.known h.guards⟩
  admits ho := ho.1
  encloses {w o} hw ho := by
    by_cases hp : w.Plain N o
    · exact .inl ⟨ho, hp⟩
    · obtain ⟨n, type, κ, settable, -, hn, a, b, hx⟩ := hw.1.exists_wrapper hp
      exact .inr ⟨κ, World.encloses_nullable hn (World.classOf_eq hx),
        fun v hv => .present hw.1 hw.2 hn hx ho hv⟩
  literal := .of_isLiteral
  literals hw := hw.1.secluded.literals
  field hw := Regime.guarded.field hw.1
  parameters hw := Regime.guarded.parameters hw.1
  store hw ho hv h := .store hw.1 hw.2 ho.1 ho.2 hv h
  allocate {w w' t o} hw hn := by
    obtain ⟨heap, rfl, hyields, hbrings⟩ := World.newObject_yields hw.1 hn
    have hgains : w.heap.Gains (w.schema.Unspoiled N) heap :=
      (World.newObject_gains hw.2.modelled hn).imp fun _ h => h.unspoiled
    exact ⟨.of_yields hw.1 hw.2 hyields hbrings hgains, (Regime.guarded.allocate hw.1 hn).2⟩
  carrier {w c heap} hw he := by
    obtain ⟨hguards, hc⟩ := Regime.guarded.carrier hw.1 he
    cases he
    exact ⟨.of_objects hguards rfl rfl, hc⟩
  setParameters hw hc hvs := .of_objects (Regime.guarded.setParameters hw.1 hc hvs) rfl rfl
  observe w e := .of_objects (Regime.guarded.observe w e) rfl rfl
  spend w site := .of_objects (Regime.guarded.spend w site) rfl rfl
  resolve hw hl := .resolve hw.1 hl

namespace Regime

variable {N : ClassId → Prop} {w : World}

/-- So does not what is done from outside without calls. -/
theorem sealing_serves (N : ClassId → Prop) : (sealing N).Serves where
  settled hw := hw.1
  guards h := h.guards
  known hv := hv.known
  copy {w o} hw ho := by
    obtain ⟨hsettled, hintact⟩ := hw
    have hgains := Heap.copy_gains (F := w.schema.Unspoiled N) hsettled.tidy.heap
      (fun hi => hintact.unspoiled hi) ho.known
    have hkeeps := keeps_copy hsettled ho
    exact ⟨⟨hkeeps.1, fun _ _ => hintact.of_gains hgains⟩, hkeeps.2⟩
  assign {w v} hw hv := by
    obtain ⟨hsettled, hintact⟩ := hw
    have hgains := Heap.assign_gains (F := w.schema.Unspoiled N) hsettled.tidy.heap
      (fun hi => hintact.unspoiled hi) hv
    have hkeeps := keeps_assign hsettled hv
    exact ⟨⟨hkeeps.1, fun _ _ => hintact.of_gains hgains⟩, hkeeps.2⟩
  blankValue {w} t hw := by
    obtain ⟨hsettled, hintact⟩ := hw
    have hshows : (w.schema.blank t).Shows (w.schema.Unspoiled N) :=
      (hintact.modelled.blank t).imp fun _ h => h.unspoiled
    have hkeeps := keeps_blankValue hsettled t
    exact ⟨⟨hkeeps.1, fun _ _ => hintact.of_gains (Heap.place_gains w.heap hshows)⟩, hkeeps.2⟩
  keep {w heap vs t name v} hw _ hl _ hguards := by
    have hintact := hl.intact hw.1 hw.2
    exact ⟨hguards, fun _ _ => ⟨hintact.modelled, hintact.fills⟩⟩

end Regime

end RecordForge
