import RecordForge.Proofs.Construction.Progress
import RecordForge.Proofs.Heap.Copies

/-!
# Tidy worlds

A world is tidy if its heap is, and if no body mentions anything that is not there. Bodies keep it
tidy, to any depth of nested calls (`Regime.tidy`): what they store is a copy if it is held by value,
and the bodies of the implementations that are made meanwhile mention construction parameters only.
-/

namespace RecordForge

/-! ## What implementations mention -/

section
variable {P : Value → Prop} {h : Heap} {S : Schema} {F : Ty} {params : Option (List Value)}

/-- An argument that is kept as a literal means the same in every heap. -/
theorem FieldPlan.isLiteral_of_operand {v u : Value} {index : Nat}
    (he : operand h index v = .literal u) : u.isLiteral = true := by
  rw [operand] at he
  split at he
  · next hv => exact Operand.literal.inj he ▸ hv
  · cases he

/-- The literals of a source mean the same in every heap. -/
def Source.IsPlain (source : Source) : Prop :=
  ∀ target k args, source = .direct target k args → ∀ v, .literal v ∈ args → v.isLiteral = true

theorem Source.isPlain_default (t : Ty) (k : Nat) : IsPlain (.direct t k []) := by
  intro target k' args he v hv
  obtain ⟨-, -, rfl⟩ := Source.direct.inj he
  cases hv

theorem Source.isPlain_withCarrier (t : Ty) (k : Nat) (source : CarrierSource) :
    IsPlain (.withCarrier t k source) := by
  intro target k' args he
  cases he

theorem FieldPlan.sources_isPlain (h : Heap) (S : Schema) (F : Ty) (params : Option (List Value)) :
    (∀ source ∈ (sources h S F params).1, source.IsPlain) ∧
      ∀ source ∈ (sources h S F params).2, source.IsPlain := by
  rw [sources]
  split
  · next i args hmatch =>
    obtain ⟨vs, -, hm⟩ := Option.bind_eq_some_iff.mp hmatch
    obtain ⟨_, -, he⟩ := Option.map_eq_some_iff.mp hm
    obtain ⟨-, rfl⟩ := Prod.mk.inj he
    have hplain : Source.IsPlain (.direct F i (vs.zipIdx.map fun a => operand h a.2 a.1)) := by
      intro target k args' he v hv
      obtain ⟨-, -, rfl⟩ := Source.direct.inj he
      obtain ⟨a, -, ha⟩ := List.mem_map.mp hv
      exact isLiteral_of_operand ha
    exact ⟨fun _ h => Option.some.inj h ▸ hplain, fun _ h => Option.some.inj h ▸ hplain⟩
  · split
    · refine ⟨fun source h => ?_, fun _ h => Option.some.inj h ▸ Source.isPlain_withCarrier _ _ _⟩
      obtain ⟨_, -, rfl⟩ := Option.map_eq_some_iff.mp h
      exact Source.isPlain_withCarrier _ _ _
    · refine ⟨fun _ h => (Option.not_mem_none _ h).elim, fun source h => ?_⟩
      obtain ⟨⟨i, ctor⟩, -, rfl⟩ := Option.map_eq_some_iff.mp h
      exact Source.isPlain_default F i

/-- The values in a step of an implementation are construction parameters, or mean the same in every
heap. -/
theorem PropertyField.step_all {f : PropertyField} (hliteral : ∀ v, v.isLiteral = true → P v)
    (hparams : ∀ vs ∈ f.parameters, ∀ v ∈ vs, P v) {source : Source} (hs : source.IsPlain) :
    (f.step source).All P :=
  ⟨hparams, fun target k args he v hv => hliteral v (hs target k args he v hv)⟩

end

section
variable {w : Workshop} {S : Schema} {cache : List (Ty × DescriptorId)} {s : Session} {t : Ty}
variable {c : ClassDecl} {i : Implementation} {P : Value → Prop}

/-- The values in the plan of a field. -/
theorem FieldPlan.Realizes.all {f : PropertyField} {plan : FieldPlan}
    (hp : FieldPlan.Realizes w S cache s f (some plan))
    (hliteral : ∀ v, v.isLiteral = true → P v) (hparams : ∀ vs ∈ f.parameters, ∀ v ∈ vs, P v) :
    plan.default.All P ∧ ∀ step ∈ plan.factory, step.All P := by
  have hstep : ∀ {source : Source}, source.IsPlain → (f.step source).All P :=
    PropertyField.step_all hliteral hparams
  cases hp with
  | @delegated l d x source _ _ _ _ _ _ hsource =>
    have hlookup : ∀ carrier, Source.IsPlain (.lookup l carrier) := fun _ _ _ _ he => nomatch he
    refine ⟨hstep ?_, fun step hm => Option.some.inj hm ▸ hstep (hlookup _)⟩
    rw [hsource]
    cases f.parameters with
    | none => exact Source.isPlain_default _ _
    | some vs => exact hlookup _
  | built _ _ hplan =>
    obtain ⟨source, rfl, hsource⟩ := FieldPlan.ofConcrete_eq_ok_iff.mp hplan
    obtain ⟨hdefault, hfactory⟩ := FieldPlan.sources_isPlain w.heap S f.fieldType f.parameters
    refine ⟨hstep ?_, fun step hm => ?_⟩
    · rcases hsource with hsource | ⟨-, k, -, rfl⟩
      · exact hdefault source hsource
      · exact Source.isPlain_default _ _
    · obtain ⟨factory, hsome, rfl⟩ := Option.map_eq_some_iff.mp hm
      exact hstep (hfactory factory hsome)

/-- An implementation mentions no other values than the construction parameters that its provider
gives. -/
theorem Implementation.Realizes.decl_all (hi : i.Realizes w S cache s t c)
    (hliteral : ∀ v, v.isLiteral = true → P v)
    (hparams : ∀ q ∈ S.abstractProperties t, ∀ vs, w.provider.parameters t q = some vs →
      ∀ v ∈ vs, P v) : (i.decl S).All P := by
  have hplans : ∀ plan ∈ i.plans, plan.default.All P ∧ ∀ step ∈ plan.factory, step.All P := by
    intro plan hplan
    obtain ⟨f, hf, hfp⟩ := List.mem_filterMap.mp hplan
    obtain ⟨q, hq, k, hreal⟩ := hi.properties.mem hf
    obtain ⟨F, m, -, he⟩ := hreal.eq
    refine (hfp ▸ hreal.plan).all hliteral fun vs hvs => hparams q hq vs ?_
    rw [he] at hvs
    exact hvs
  refine ⟨fun ctor hctor => ?_, fun p hp g hg => ?_, fun p hp g hg => ?_,
    (fun _ h => nomatch h), (fun _ h => nomatch h)⟩
  · rcases List.mem_pair.mp hctor with rfl | rfl
    · intro step hstep
      obtain ⟨plan, hplan, rfl⟩ := List.mem_map.mp hstep
      exact (hplans plan hplan).1
    · intro step hstep
      obtain ⟨plan, hplan, hfactory⟩ := List.mem_filterMap.mp hstep
      exact (hplans plan hplan).2 step hfactory
  · obtain ⟨f, -, rfl⟩ := List.mem_map.mp hp
    obtain rfl := Accessor.body.inj (Option.some.inj hg)
    rw [PropertyField.getter]
    split <;> trivial
  · obtain ⟨f, -, rfl⟩ := List.mem_map.mp hp
    obtain ⟨g', hg', he⟩ := Option.map_eq_some_iff.mp hg
    obtain rfl := Accessor.body.inj he
    cases hshape : f.shape with
    | omitted =>
      rw [hshape] at hg'
      cases hg'
    | direct =>
      rw [hshape] at hg'
      exact Option.some.inj hg' ▸ trivial
    | through m =>
      rw [hshape] at hg'
      exact Option.some.inj hg' ▸ trivial

end

/-! ## Tidy worlds -/

/-- The heap is tidy, and what bodies mention is there. -/
structure World.Tidy (w : World) : Prop where
  heap : w.heap.Tidy
  literals : w.schema.Literals (·.Known w.heap)

namespace World

variable {w w' : World} {t : Ty}

/-- Where the heap grows and stays tidy, so does the world. -/
theorem Tidy.of_heap (hw : w.Tidy) {heap : Heap} (hg : w.heap.Grows heap) (ht : heap.Tidy) :
    Tidy { w with heap } :=
  ⟨ht, hw.literals.imp fun _ hv => hv.mono hg⟩

/-- A request makes implementations only. They mention no other values than the construction parameters
that the provider gives. -/
theorem descriptorFor_made (hs : w.quiet.Sound) {r : RegistryId} {registry : Registry}
    (hr : w.registries[r]? = some registry) {e : DescriptorId}
    (he : w.descriptorFor r registry t = .ok (e, w')) {c : ClassId} {d : ClassDecl}
    (hd : w'.schema.class? c = some d) : w.schema.class? c = some d ∨ d.isAbstract = false ∧
      (∃ i b, d = Implementation.decl i w.schema ∧ i.type = .cls b ∧
        w.schema.class? b = some i.base ∧ i.base.isAbstract = true) ∧
      ∀ {P : Value → Prop}, (∀ v, v.isLiteral = true → P v) →
        registry.provider.Gives P w.schema → d.All P := by
  rw [World.descriptorFor] at he
  split at he
  · cases he
    exact .inl hd
  · next hc =>
    obtain ⟨⟨found, s⟩, hfind, he⟩ := RequestError.bind_eq_ok_iff.mp he
    cases he
    have hat : w.quiet.SoundAt r registry := hs.registries hr
    obtain ⟨hgrows, -⟩ := hat.find_grows (t := t) rfl hc hfind
    rcases hgrows.made hd with hold | hmakes
    · exact .inl hold
    · obtain ⟨b, e, x, -, ha, hk, hx, hproduct, -⟩ := hmakes.known
      obtain ⟨x', h₀, hx', -, hserves⟩ := hgrows.tracks.serves hk
      obtain rfl := Option.some.inj (hx'.symm.trans hx)
      cases hserves with
      | concrete hd₀ _ hcon => simp [Schema.isAbstract, hd₀, hcon] at ha
      | implemented hd₀ _ habs hi hp =>
        rw [hproduct] at hp
        obtain rfl := Option.some.inj (hd.symm.trans hp)
        refine .inr ⟨hmakes.concrete, ⟨_, b, rfl, hi.type, hi.base ▸ hd₀, hi.base ▸ habs⟩,
          fun hliteral hgives => ?_⟩
        exact hi.decl_all hliteral fun q hq vs hvs v hv => hgives (.cls b) ha q hq vs hvs v hv

/-- A request keeps what the literals of a schema satisfy, if the provider gives nothing else. -/
theorem descriptorFor_literals (hs : w.quiet.Sound) {r : RegistryId} {registry : Registry}
    (hr : w.registries[r]? = some registry) {e : DescriptorId}
    (he : w.descriptorFor r registry t = .ok (e, w')) {P : Value → Prop}
    (hliteral : ∀ v, v.isLiteral = true → P v) (hgives : registry.provider.Gives P w.schema)
    (hP : w.schema.Literals P) : w'.schema.Literals P := by
  intro u d hd
  obtain ⟨c, rfl, -⟩ := Schema.lt_size_of_decl? hd
  rcases descriptorFor_made hs hr he hd with hold | ⟨-, -, hnew⟩
  · exact hP (.cls c) d hold
  · exact hnew hliteral hgives

/-- A request keeps a world tidy: new classes are implementations. -/
theorem Tidy.descriptorFor (hw : w.Tidy) (hs : w.quiet.Sound) {r : RegistryId} {registry : Registry}
    (hr : w.registries[r]? = some registry) {e : DescriptorId}
    (he : w.descriptorFor r registry t = .ok (e, w')) : w'.Tidy := by
  obtain ⟨-, hheap⟩ := descriptorFor_grows he
  refine ⟨hheap ▸ hw.heap, ?_⟩
  rw [hheap]
  have hat : w.quiet.SoundAt r registry := hs.registries hr
  exact descriptorFor_literals hs hr he (fun _ => .of_isLiteral) hat.given hw.literals

/-- Resolving a lookup keeps a world tidy. -/
theorem Tidy.resolve (hw : w.Tidy) (hs : w.quiet.Sound) {l : LookupId} {x : Descriptor}
    (hl : w.resolve l = .ok (x, w')) : w'.Tidy := by
  obtain ⟨lookup, -, ⟨-, rfl⟩ | ⟨-, registry, e, w₁, hr, -, hd, -, rfl⟩⟩ := resolve_eq_ok_iff.mp hl
  · exact hw
  · have htidy := hw.descriptorFor hs hr hd
    exact ⟨htidy.heap, htidy.literals⟩

/-- A value that is stored is there already. -/
theorem Tidy.setField (hw : w.Tidy) {o : ObjectId} {k : Nat} {v : Value} (hv : v.Known w.heap)
    (h : w.setField o k v = .ok w') : w.heap.Grows w'.heap ∧ w'.Tidy := by
  obtain ⟨heap, hstore, rfl⟩ := setField_eq_ok_iff.mp h
  have hgrows := Heap.store_grows hstore
  exact ⟨hgrows, hw.of_heap hgrows (Heap.store_spec hw.heap hv hstore).1.tidy⟩

theorem Tidy.newObject (hw : w.Tidy) {o : ObjectId} (h : w.newObject t = some (o, w')) :
    w.heap.Grows w'.heap ∧ w'.Tidy ∧ o < w'.heap.objects.size := by
  cases t with
  | cls c =>
    obtain ⟨d, -, he⟩ := Option.map_eq_some_iff.mp h
    obtain ⟨rfl, rfl⟩ := Prod.mk.inj he
    have hyields := Heap.allocate_yields hw.heap c d.isValueType (d.layout.map FieldDecl.blank)
    exact ⟨hyields.grows, hw.of_heap hyields.grows hyields.tidy,
      hyields.known _ (List.mem_singleton.mpr rfl)⟩
  | any => cases h
  | carrier => cases h
  | scalar k => cases h
  | enum e => cases h

end World

/-- A run leads from a tidy world to a tidy world. -/
structure World.Tends (w w' : World) : Prop where
  heap : w.heap.Grows w'.heap
  leads : w.quiet.Sound → w.Leads w'
  tidy : w.quiet.Sound → w.Tidy → w'.Tidy

/-- **Bodies keep a world tidy**, as long as they come across nothing that is not there. -/
def Regime.tidy : Regime where
  Inv w := w.quiet.Sound ∧ w.Tidy
  Admits w v := v.Known w.heap
  Opens w o := (Value.object o).Known w.heap
  Leads := World.Tends
  refl w := ⟨.refl _, fun _ => .refl w, fun _ hw => hw⟩
  trans h h' := by
    refine ⟨h.heap.trans h'.heap, fun hs => (h.leads hs).trans (h'.leads ?_),
      fun hs hw => h'.tidy ?_ (h.tidy hs hw)⟩
    all_goals
      obtain ⟨_, hruns⟩ := h.leads hs
      exact hruns.sound hs
  inv hw h := by
    obtain ⟨_, hruns⟩ := h.leads hw.1
    exact ⟨hruns.sound hw.1, h.tidy hw.1 hw.2⟩
  mono h hv := hv.mono h.heap
  opens_mono h ho := ho.mono h.heap
  admits ho := ho
  encloses _ ho := .inl ho
  literal hv := .of_isLiteral hv
  literals hw := hw.2.literals
  field hw _ hf := hw.2.heap.known (World.field_eq_ok_iff.mp hf)
  parameters hw _ hp v hv := hw.2.heap.parameters hp v hv
  store hw _ hv hs :=
    ⟨(hw.2.setField hv hs).1, fun h => (World.Works.setField h.heap hs).leads,
      fun _ ht => (ht.setField hv hs).2⟩
  allocate hw hn :=
    ⟨⟨(hw.2.newObject hn).1, fun h => (World.Works.newObject h.proper h.heap hn).leads,
      fun _ ht => (ht.newObject hn).2.1⟩, (hw.2.newObject hn).2.2⟩
  carrier {w c heap} hw he := by
    cases he
    have hgrows := w.heap.newCarrier_grows
    refine ⟨⟨hgrows, fun h => (World.Works.of_heap hgrows fun ho => h.heap ho).leads,
      fun _ ht => ht.of_heap hgrows ht.heap.newCarrier⟩, ?_⟩
    show w.heap.carriers.size < (w.heap.carriers.push none).size
    rw [Array.size_push]
    exact Nat.lt_succ_self _
  setParameters {w c values} hw _ hvs :=
    have hgrows := w.heap.setParameters_grows c values
    ⟨hgrows, fun h => (World.Works.of_heap hgrows fun ho => h.heap ho).leads,
      fun _ ht => ht.of_heap hgrows (ht.heap.setParameters hvs)⟩
  observe w e :=
    ⟨.refl _, fun h => World.Works.leads ⟨rfl, rfl, rfl, rfl, .refl _, h.heap⟩,
      fun _ ht => ⟨ht.heap, ht.literals⟩⟩
  spend w site :=
    ⟨.refl _, fun h => World.Works.leads ⟨rfl, rfl, rfl, rfl, .refl _, h.heap⟩,
      fun _ ht => ⟨ht.heap, ht.literals⟩⟩
  resolve {w w' l d} hw hl := by
    obtain ⟨-, hheap⟩ := World.resolve_grows hl
    exact ⟨hheap ▸ .refl _, fun h => World.resolve_runs h hl, fun h ht => ht.resolve h hl⟩

instance : Regime.tidy.IsOpen := ⟨fun ho => ho⟩

/-! ## Worlds that arise -/

namespace Schema.Literals

variable {s s' : Schema} {P : Value → Prop}

/-- A class that is declared adds what its bodies mention. -/
theorem declare (hs : s.Literals P) {draft : ClassDraft} {c : ClassId}
    (hd : s.declare draft = .ok (c, s')) (hnew : (s.finish draft).All P) : s'.Literals P := by
  intro t d ht
  obtain ⟨-, hadd⟩ := declare_eq_ok_iff.mp hd
  obtain rfl : (s.addClass (s.finish draft)).2 = s' := congrArg Prod.snd hadd
  obtain ⟨b, rfl, -⟩ := lt_size_of_decl? ht
  rcases class?_addClass_eq_some ht with ⟨-, rfl⟩ | hold
  · exact hnew
  · exact hs (.cls b) d hold

/-- An enumeration adds nothing. -/
theorem addEnum (hs : s.Literals P) (e : EnumDecl) : (s.addEnum e).2.Literals P := by
  intro t d ht
  obtain ⟨c, rfl, -⟩ := lt_size_of_decl? ht
  exact hs (.cls c) d ht

end Schema.Literals

/-- A world that comes about from nothing: by declarations, by registries and what is asked of them,
and by runs. Whatever a body does keeps to `Regime.tidy`, as long as it is given nothing that is not
there. -/
inductive World.Arises : World → Prop
  | empty : Arises {}
  /-- A class is declared. It mentions what is declared, and values that are there. -/
  | declare {w : World} {draft : ClassDraft} {c : ClassId} {schema : Schema} (h : Arises w)
      (hd : w.schema.declare draft = .ok (c, schema)) (hwritten : draft.IsWritten)
      (hcovers : schema.Covers (w.schema.finish draft))
      (hfits : ∀ (r : RegistryId) registry, w.registries[r]? = some registry →
        registry.provider.Fits { w with schema })
      (hvalues : (w.schema.finish draft).All (·.Known w.heap)) : Arises { w with schema }
  | enumerate {w : World} (h : Arises w) (d : EnumDecl) :
      Arises { w with schema := (w.schema.addEnum d).2 }
  /-- A registry is there that has published nothing yet. -/
  | openRegistry {w : World} {registry : Registry} (h : Arises w) (hcache : registry.cache = [])
      (hcount : registry.synthesized = 0) (hfits : registry.provider.Fits w) :
      Arises { w with registries := w.registries.push registry }
  | request {w w' : World} {r : RegistryId} {registry : Registry} {t : Ty} {e : DescriptorId}
      (h : Arises w) (hr : w.registries[r]? = some registry)
      (hd : w.descriptorFor r registry t = .ok (e, w')) : Arises w'
  | map {w w' : World} {r : RegistryId} {registry : Registry} {request : MemberMapper.Request}
      {m : MapperId} (h : Arises w) (hr : w.registries[r]? = some registry)
      (hm : w.mapperFor r registry request = .ok (m, w')) : Arises w'
  /-- A registry answers no more. -/
  | dropRegistry {w : World} (h : Arises w) (r : RegistryId) : Arises (w.dropRegistry r)
  | run {w w' : World} {α : Type} {x : Run α} {Q : World → α → Prop} {r : Except Halt α}
      (h : Arises w) (hx : Regime.tidy.Keeps w x Q) (hr : x w = (r, w')) : Arises w'

/-- **Worlds that arise are tidy**, and scenes that come about from nothing. -/
theorem World.Arises.comes_about {w : World} (h : w.Arises) :
    (∃ told, Scene.Runs {} told w.quiet) ∧ w.Tidy := by
  induction h with
  | empty =>
    refine ⟨⟨[], .refl _⟩, Heap.tidy_empty, fun t d hd => ?_⟩
    obtain ⟨c, -, hlt⟩ := Schema.lt_size_of_decl? hd
    exact (Nat.not_lt_zero _ hlt).elim
  | @declare w draft c schema h hd hwritten hcovers hfits hvalues ih =>
    obtain ⟨⟨told, hruns⟩, htidy⟩ := ih
    exact ⟨⟨_, hruns.tail (.declare hd hwritten hcovers hfits)⟩, htidy.heap,
      htidy.literals.declare hd hvalues⟩
  | enumerate h d ih =>
    obtain ⟨⟨told, hruns⟩, htidy⟩ := ih
    exact ⟨⟨_, hruns.tail (.enumerate d)⟩, htidy.heap, htidy.literals.addEnum d⟩
  | openRegistry h hcache hcount hfits ih =>
    obtain ⟨⟨told, hruns⟩, htidy⟩ := ih
    exact ⟨⟨_, hruns.tail (.openRegistry hcache hcount hfits)⟩, htidy.heap, htidy.literals⟩
  | request h hr hd ih =>
    obtain ⟨⟨told, hruns⟩, htidy⟩ := ih
    have hsound := Scene.sound_of_runs hruns
    exact ⟨⟨_, hruns.trans (descriptorFor_runs hsound hr hd)⟩, htidy.descriptorFor hsound hr hd⟩
  | map h hr hm ih =>
    obtain ⟨⟨told, hruns⟩, htidy⟩ := ih
    refine ⟨⟨_, hruns.tail (.map (S := World.quiet _) hr hm)⟩, ?_⟩
    rcases Scene.mapperFor_registries hr hm with rfl | ⟨hsession, hheap, -⟩
    · exact htidy
    · refine ⟨hheap ▸ htidy.heap, ?_⟩
      rw [hheap, show World.schema _ = _ from congrArg Session.schema hsession]
      exact htidy.literals
  | dropRegistry h r ih =>
    obtain ⟨⟨told, hruns⟩, htidy⟩ := ih
    exact ⟨⟨_, hruns.tail (.dropRegistry r)⟩, htidy.heap, htidy.literals⟩
  | run h hx hr ih =>
    obtain ⟨⟨told, hruns⟩, htidy⟩ := ih
    have hsound := Scene.sound_of_runs hruns
    have htends := hx.1
    rw [hr] at htends
    obtain ⟨_, hruns'⟩ := htends.leads hsound
    exact ⟨⟨_, hruns.trans hruns'⟩, htends.tidy hsound htidy⟩

namespace World.Arises

variable {w : World} (h : w.Arises)
include h

theorem inv : Regime.tidy.Inv w := by
  obtain ⟨⟨_, hruns⟩, htidy⟩ := h.comes_about
  exact ⟨Scene.sound_of_runs hruns, htidy⟩

/-- A carrier is made in a world that arises. -/
theorem newCarrier : World.Arises { w with heap := w.heap.newCarrier.2 } :=
  h.run (Regime.keeps_newCarrier h.inv) rfl

/-- A registry is asked for a type. -/
theorem ask (r : RegistryId) (t : Ty) : (w.request r t).Arises := by
  rw [World.request]
  split
  · exact h
  · next registry hr =>
    split
    · next e w' he => exact h.request hr he
    · exact h

end World.Arises

/-! ### Scenes -/

/-- Whether the bodies of a class mention no values: they are built in. -/
def ClassDecl.isBuiltIn (d : ClassDecl) : Bool :=
  (d.constructors.all fun c => match c.body with
    | .chain _ | .wrapped _ => true
    | .routine _ | .plan _ => false) &&
  (d.properties.all fun p =>
    (match p.getter with
      | some (.body (.routine _)) => false
      | _ => true) &&
    (match p.setter with
      | some (.body (.routine _)) => false
      | _ => true)) &&
  d.receiver.isNone &&
  d.statics.all fun f => match f.body with
    | .blank => true
    | .routine _ => false

theorem ClassDecl.all_of_isBuiltIn {P : Value → Prop} {d : ClassDecl} (h : d.isBuiltIn = true) :
    d.All P := by
  simp only [isBuiltIn, Bool.and_eq_true, List.all_eq_true] at h
  obtain ⟨⟨⟨hconstructors, hproperties⟩, hreceiver⟩, hstatics⟩ := h
  refine ⟨fun c hc => ?_, fun p hp g hg => ?_, fun p hp g hg => ?_, fun body hb => ?_, fun f hf => ?_⟩
  · have hbody := hconstructors c hc
    cases hb : c.body <;> simp_all [ConstructorBody.All]
  · have hgetter := (hproperties p hp).1
    cases g <;> simp_all [Getter.All]
  · have hsetter := (hproperties p hp).2
    cases g <;> simp_all [Setter.All]
  · rw [Option.mem_def.mp hb] at hreceiver
    cases hreceiver
  · have hbody := hstatics f hf
    cases hb : f.body <;> simp_all [StaticBody.All]

namespace Scene

theorem extends_addDrafts (s : Schema) (ds : List ClassDraft) : s.Extends (addDrafts s ds) := by
  induction ds generalizing s with
  | nil => exact .refl s
  | cons d ds ih => exact (Schema.extends_addClass s (s.finish d)).trans (ih (addDrafts s [d]))

/-- The first class that is declared is among those that are there in the end. -/
theorem class?_addDrafts (s : Schema) (d : ClassDraft) (ds : List ClassDraft) :
    (addDrafts s (d :: ds)).class? s.classes.size = some (s.finish d) :=
  (extends_addDrafts (addDrafts s [d]) ds).classes (Schema.class?_addClass s (s.finish d))

theorem isBuiltIn_head {s : Schema} {d : ClassDraft} {ds : List ClassDraft}
    (hb : (addDrafts s (d :: ds)).classes.all ClassDecl.isBuiltIn = true) :
    (s.finish d).isBuiltIn = true := by
  obtain ⟨hlt, hfinish⟩ := Array.getElem?_eq_some_iff.mp (class?_addDrafts s d ds)
  exact hfinish ▸ Array.all_eq_true.mp hb _ hlt

/-- Declaring classes whose bodies mention literals only. -/
theorem declare_arises {s : Schema} {ds : List ClassDraft} (hs : World.Arises { schema := s })
    (h : CanDeclare s ds)
    (hb : ∀ d ∈ (addDrafts s ds).classes.toList, d.All fun v => v.isLiteral = true) :
    World.Arises { schema := addDrafts s ds } := by
  induction ds generalizing s with
  | nil => exact hs
  | cons d ds ih =>
    obtain ⟨hoffence, hwritten, hcovers, hrest⟩ := h
    have hvalues := hb _ (Array.mem_toList_iff.mpr (Array.mem_of_getElem? (class?_addDrafts s d ds)))
    exact ih (hs.declare (declare_addDrafts hoffence) hwritten hcovers (fun _ _ hr => nomatch hr)
      (hvalues.imp fun _ => .of_isLiteral)) hrest hb

/-- A world of classes whose bodies mention literals only, in which a registry has been asked for a
type. -/
theorem asked_arises {drafts : List ClassDraft} (h : CanDeclare {} drafts)
    (hclosed : (addDrafts {} drafts).Closed)
    (hliteral : ∀ d ∈ (addDrafts {} drafts).classes.toList, ∀ q ∈ d.properties,
      ∀ vs ∈ q.parameters?, ∀ v ∈ vs, v.isLiteral = true)
    (hb : ∀ d ∈ (addDrafts {} drafts).classes.toList, d.All fun v => v.isLiteral = true) (t : Ty) :
    (asked drafts t).Arises :=
  ((declare_arises .empty h hb).openRegistry rfl rfl (opened_fits hclosed hliteral)).ask 0 t

end Scene

end RecordForge
