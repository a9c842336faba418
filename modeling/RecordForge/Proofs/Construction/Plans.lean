import Mathlib.Data.List.Range
import RecordForge.Proofs.Construction.Situations
import RecordForge.Proofs.Scene.Bodies
import RecordForge.Proofs.Scene.Nesting

/-!
# What a plan refers to is there

A construction plan is made when a class is implemented, and is run much later. `World.Supports`
says that all it refers to is there: the classes whose instances it creates, with constructors that
take what they are given, the slots of the fields, and the constructor of the abstract class. All of
these classes are earlier than the class of the plan. `Scene.Sorted.supports` shows it of every plan
in a scene that comes about from nothing.
-/

namespace RecordForge

open Run

/-! ## Classes and what they inherit -/

namespace Schema

variable {s s' : Schema} {b c n : ClassId} {d d' : ClassDecl}

/-- The lineage of a class with a base. -/
theorem lineage_of_bases (hd : s.class? c = some d) (hb : s.class? b = some d')
    (hbases : d.bases = b :: d'.bases) :
    s.lineage (.cls c) = (.cls c, d) :: s.lineage (.cls b) := by
  have hancestors : s.ancestors (.cls c) = .cls c :: s.ancestors (.cls b) := by
    simp only [ancestors, bases, decl?, hd, hb, Option.elim_some, hbases, List.map_cons]
  rw [lineage, lineage, hancestors, List.filterMap_cons]
  simp only [decl?, hd, Option.map_some]

/-- A class that has no receiver itself has that of its base. -/
theorem receiver?_of_bases (hd : s.class? c = some d) (hb : s.class? b = some d')
    (hbases : d.bases = b :: d'.bases) :
    s.receiver? (.cls c) = d.receiver.or (s.receiver? (.cls b)) := by
  rw [receiver?, lineage_of_bases hd hb hbases, List.findSome?_cons]
  dsimp only
  cases d.receiver with
  | none => rfl
  | some body => rfl

theorem receiver?_eq {t : Ty} (h : s.Extends s') (hs : s.Closed) (ht : s.Declares t) :
    s'.receiver? t = s.receiver? t := by
  simp only [receiver?, lineage_eq h hs ht]

/-- Among the classes below a number, those with the receiver interface have a receiver. -/
def Hears (s : Schema) (n : ClassId) : Prop :=
  ∀ b, b < n → s.implementsInterface (.cls b) receiverInterface = true →
    (s.receiver? (.cls b)).isSome = true

theorem Hears.mono (h : s.Hears n) (he : s.Extends s') (hs : s.Closed)
    (hn : n ≤ s.classes.size) : s'.Hears n := by
  intro b hb hi
  have hlt : b < s.classes.size := Nat.lt_of_lt_of_le hb hn
  have hd : s.Declares (.cls b) :=
    Option.isSome_iff_exists.mpr ⟨s.classes[b], Array.getElem?_eq_getElem hlt⟩
  rw [implementsInterface_eq he hd] at hi
  rw [receiver?_eq he hs hd]
  exact h b hb hi

end Schema

/-- The implementation of a class is below it and its bases. -/
theorem Implementation.bases_decl {s : Schema} {i : Implementation} {b : ClassId}
    (htype : i.type = .cls b) (hbase : s.class? b = some i.base) :
    (i.decl s).bases = b :: i.base.bases := by
  have hancestors : s.ancestors i.type = .cls b :: i.base.bases.map Ty.cls := by
    simp only [Schema.ancestors, Schema.bases, htype, Schema.decl?, hbase, Option.elim_some]
  simp only [decl, hancestors, List.filterMap_cons, List.filterMap_map]
  exact congrArg (b :: ·) (List.filterMap_some ..)

namespace Scene

variable {S : Scene} {r : RegistryId} {registry : Registry} {b c n : ClassId} {d d' : ClassDecl}

/-- A class that a registry has made is the implementation of an earlier, abstract class. -/
theorem Makes.spec (hat : S.SoundAt r registry) (hm : S.Makes r registry c d)
    (hc : S.world.schema.class? c = some d) :
    ∃ b c₀ e, ∃ (i : Implementation) (h₀ : Heap), b < c ∧ S.world.schema.class? b = some c₀ ∧
      c₀.isAbstract = true ∧ S.world.session.known? (S.entries r registry) (.cls b) = some e ∧
      h₀.Grows S.world.heap ∧ i.Realizes (registry.workshop r h₀) S.world.schema
        (S.entries r registry) S.world.session (.cls b) c₀ ∧ d = i.decl S.world.schema ∧
      ∀ F, registry.provider.Needs S.world.schema (.cls b) F → ∃ e' x' k,
        S.world.session.known? (S.entries r registry) F = some e' ∧
          S.world.descriptors[e']? = some x' ∧ x'.product = .cls k ∧ k < c := by
  obtain ⟨b, e, x, hlt, ha, hk, hx, hp, hn⟩ := hm.known
  obtain ⟨x', h₀, hx', hh₀, hserves⟩ := hat.tracks.session.serves hk
  obtain rfl : x' = x := Option.some.inj (hx'.symm.trans hx)
  cases hserves with
  | concrete hd _ hcon => simp [Schema.isAbstract, hd, hcon] at ha
  | implemented hd _ habs hi hpr =>
    rw [hp] at hpr
    exact ⟨b, _, e, _, h₀, hlt, hd, habs, hk, hh₀, hi, Option.some.inj (hc.symm.trans hpr), hn⟩

/-- Every class records what it inherits. -/
theorem Sorted.inherits (hs : S.Sorted) (h : S.Sound) (hc : S.world.schema.class? c = some d) :
    d.Inherits S.world.schema c := by
  rcases hs c d hc with hwritten | ⟨r, registry, hr, hm⟩
  · exact hwritten.inherits
  · obtain ⟨b, c₀, e, i, h₀, hlt, hb, -, -, -, hi, rfl, -⟩ := hm.spec (h.registries hr) hc
    have hbase : S.world.schema.class? b = some i.base := hi.base ▸ hb
    exact .inr ⟨b, i.base, hlt, hbase, Implementation.bases_decl hi.type hbase, rfl⟩

/-- If every class that declares the receiver interface has a receiver, then so has every class that
inherits it. -/
theorem Sorted.hears (hs : S.Sorted) (h : S.Sound)
    (hr : ∀ c d, S.world.schema.class? c = some d → receiverInterface ∈ d.interfaces →
      (S.world.schema.receiver? (.cls c)).isSome = true) : S.world.schema.Hears n := by
  suffices hall : ∀ b, S.world.schema.implementsInterface (.cls b) receiverInterface = true →
      (S.world.schema.receiver? (.cls b)).isSome = true from fun b _ => hall b
  intro b
  induction b using Nat.strong_induction_on with
  | _ b ih =>
    intro hi
    rw [Schema.implementsInterface] at hi
    cases hd : S.world.schema.decl? (.cls b) with
    | none => rw [hd] at hi; cases hi
    | some d =>
      have hd : S.world.schema.class? b = some d := hd
      have hmem : receiverInterface ∈ d.allInterfaces := by
        simpa [Schema.decl?, hd] using hi
      rcases hs.inherits h hd with ⟨-, hall⟩ | ⟨b', d', hlt, hd', hbases, hall⟩
      · exact hr b d hd (hall ▸ hmem)
      · rw [hall] at hmem
        rcases List.mem_append.mp hmem with hown | hinherited
        · exact hr b d hd hown
        · have hbase := ih b' hlt (by simpa [Schema.implementsInterface, Schema.decl?, hd'] using hinherited)
          rw [Schema.receiver?_of_bases hd hd' hbases, Option.isSome_or, hbase, Bool.or_true]

/-- A registry that is not about to publish anything knows what it has published. -/
theorem known?_of_free (hfree : S.commits r = none) (t : Ty) :
    S.world.session.known? (S.entries r registry) t = registry.cached? t := by
  rw [entries, hfree, Session.known?]
  show ((registry.cache ++ []).lookup t).or none = _
  rw [List.append_nil, Option.or_none]
  rfl

end Scene

/-! ## What plans refer to -/

namespace World

variable (w : World)

/-- A type is an earlier class than `c`, its instances can be created and are shared by reference,
and its constructor with the number `k` takes `n` arguments. -/
def CanConstruct (c : ClassId) (t : Ty) (k n : Nat) : Prop :=
  ∃ b d ctor, t = .cls b ∧ b < c ∧ w.schema.class? b = some d ∧ d.isAbstract = false ∧
    d.isValueType = false ∧ d.constructors[k]? = some ctor ∧ ctor.params.length = n

/-- What a step refers to is there. It creates instances of a class. -/
inductive Feasible (c : ClassId) (step : BuildStep) (t : Ty) : Prop
  | direct {k : Nat} {operands : List Operand} (hs : step.source = .direct t k operands)
      (hc : w.CanConstruct c t k operands.length)
      (hl : ∀ a ∈ operands, ∃ v, a.load step.parameters w = (.ok v, w))
  | withCarrier {k : Nat} {source : CarrierSource} (hs : step.source = .withCarrier t k source)
      (hc : w.CanConstruct c t k 1)
  | lookup {l : LookupId} {source : CarrierSource} {x : Descriptor} {k : Nat}
      (hs : step.source = .lookup l source) (hx : x.product = t)
      (hr : w.Answers l → ∃ lookups, w.resolve l = .ok (x, { w with lookups }))
      (honly : ∀ {x' w'}, w.resolve l = .ok (x', w') → x' = x)
      (hk : x.factoryConstructor = some k) (htakes : x.factoryTakesCarrier = true)
      (hc : w.CanConstruct c t k 1)
      (hfits : w.schema.isAssignable t step.fieldType = true) (htype : x.type = step.fieldType)

/-- A type asks to be told the properties. -/
def Asks (t : Ty) : Prop := w.schema.implementsInterface t receiverInterface = true

/-- What a step refers to is there. If the type of the field asks to be told the property, then the
instances that the step creates have a receiver, provided that earlier classes have the receivers that
they should have. -/
def Provides (c : ClassId) (step : BuildStep) : Prop :=
  w.schema.Declares step.fieldType ∧ ∃ t, w.Feasible c step t ∧
    (w.schema.Hears c → w.Asks step.fieldType → (w.schema.receiver? t).isSome = true)

/-- What a plan of a class refers to is there. -/
structure Supports (c : ClassId) (d : ClassDecl) (p : ConstructionPlan) : Prop where
  steps : ∀ step ∈ p.steps, w.Provides c step
  slots : (p.steps.map BuildStep.slot).Nodup
  bound : ∀ step ∈ p.steps, step.slot < d.layout.length
  infos : ∀ i ∈ p.infos, ∃ step ∈ p.steps, step.slot = i.slot ∧ w.Asks step.fieldType
  base : ∀ b ∈ p.base, ∃ a d' ctor, b.target = .cls a ∧ a < c ∧ w.schema.class? a = some d' ∧
    d'.constructors[b.constructor]? = some ctor ∧
    ctor.params.length = (if b.passesCarrier then 1 else 0) ∧ d'.layout.length ≤ d.layout.length

end World

/-! ## Operands -/

section
variable {w : World} {h : Heap} {vs : List Value} {v : Value} {index : Nat}

/-- A value may be stored where its own type is expected. -/
theorem Schema.cast_typeOf (s : Schema) (hv : v.isLiteral = false) (hg : h.Grows w.heap) :
    s.cast w.heap v (Schema.typeOf h v) = .ok v := by
  cases v with
  | null => cases hv
  | scalar x => cases hv
  | carrier c => rfl
  | object o =>
    rw [typeOf, classOf]
    cases ho : h.object? o with
    | none => rfl
    | some i =>
      obtain ⟨i', ho', hs⟩ := hg.objects ho
      have hclass : i'.cls = i.cls := congrArg Shape.cls hs
      have hadmits : s.admits w.heap (.cls i.cls) (.object o) = true := by
        simp [admits, Value.object?, classOf, ho', hclass, isAssignable]
      rw [Option.elim_some, cast, if_neg (by simp), if_neg (by simp [Value.isNull]), if_pos hadmits]

/-- The argument for a construction parameter is the parameter. -/
theorem FieldPlan.operand_load (hv : vs[index]? = some v) (hg : h.Grows w.heap) :
    (operand h index v).load (some vs) w = (.ok v, w) := by
  rw [operand]
  split
  · rfl
  · next hliteral =>
    have hcast := w.schema.cast_typeOf (by simpa using hliteral) hg
    simp only [Operand.load, Option.getD_some, hv]
    exact check_of_ok hcast

/-- Arguments that can be loaded one by one can be loaded together. -/
theorem Operand.loadAll_eq_ok {parameters : Option (List Value)} {operands : List Operand}
    (h : ∀ a ∈ operands, ∃ v, a.load parameters w = (.ok v, w)) :
    ∃ values, loadAll parameters operands w = (.ok values, w) ∧ values.length = operands.length := by
  induction operands with
  | nil => exact ⟨[], rfl, rfl⟩
  | cons a operands ih =>
    obtain ⟨v, hv⟩ := h a List.mem_cons_self
    obtain ⟨values, hvalues, hlength⟩ := ih fun b hb => h b (List.mem_cons_of_mem _ hb)
    refine ⟨v :: values, ?_, congrArg (· + 1) hlength⟩
    rw [loadAll, bind_of_ok hv, bind_of_ok hvalues]
    rfl

end

/-! ## Fields whose type is not abstract -/

section
variable {w : World} {c : ClassId} {t : Ty} {k : Nat} {params : List Ty} {ctor : ConstructorDecl}

/-- A type is an earlier class than `c`, and its instances can be created and are shared by
reference. -/
def World.Precedes (w : World) (c : ClassId) (t : Ty) : Prop :=
  ∃ b d, t = .cls b ∧ b < c ∧ w.schema.class? b = some d ∧ d.isAbstract = false ∧
    d.isValueType = false

theorem World.Precedes.canConstruct (ht : w.Precedes c t)
    (hf : w.schema.findConstructor? t params = some (k, ctor)) :
    w.CanConstruct c t k params.length := by
  obtain ⟨b, d, rfl, hlt, hd, ha, hv⟩ := ht
  obtain ⟨hk, rfl⟩ := Schema.findConstructor?_eq_some hf
  have hk : d.constructors[k]? = some ctor := by
    simpa only [Schema.constructors, Schema.decl?, hd, Option.elim_some] using hk
  exact ⟨b, d, ctor, rfl, hlt, hd, ha, hv, hk, rfl⟩

/-- The public constructor without arguments is one without arguments. -/
theorem Schema.publicDefault?_eq_some {s : Schema} (h : s.publicDefault? t = some k) :
    ∃ ctor, s.findConstructor? t [] = some (k, ctor) := by
  obtain ⟨⟨k', ctor⟩, hf, rfl⟩ := Option.map_eq_some_iff.mp h
  exact ⟨ctor, (Option.filter_eq_some_iff.mp hf).1⟩

/-- Running a constructor without arguments. -/
theorem World.Feasible.of_default (ht : w.Precedes c t)
    (hf : w.schema.findConstructor? t [] = some (k, ctor)) {f : PropertyField} :
    w.Feasible c (f.step (.direct t k [])) t :=
  .direct rfl (ht.canConstruct hf) fun _ ha => nomatch ha

/-- The sources that the constructors of a class offer. -/
theorem FieldPlan.sources_feasible {h : Heap} (hg : h.Grows w.heap) (f : PropertyField)
    (ht : w.Precedes c t) :
    (∀ source ∈ (sources h w.schema t f.parameters).1, w.Feasible c (f.step source) t) ∧
      ∀ source ∈ (sources h w.schema t f.parameters).2, w.Feasible c (f.step source) t := by
  rw [sources]
  split
  · next i args hmatch =>
    obtain ⟨vs, hvs, hm⟩ := Option.bind_eq_some_iff.mp hmatch
    obtain ⟨⟨i', ctor⟩, hf, he⟩ := Option.map_eq_some_iff.mp hm
    obtain ⟨rfl, rfl⟩ := Prod.mk.inj he
    have hdirect : w.Feasible c (f.step (.direct t i' (vs.zipIdx.map fun a =>
        operand h a.2 a.1))) t := by
      refine .direct rfl ?_ fun a ha => ?_
      · have hc := ht.canConstruct hf
        rw [List.length_map] at hc
        rwa [List.length_map, List.length_zipIdx]
      · obtain ⟨⟨v, index⟩, hv, rfl⟩ := List.mem_map.mp ha
        have hload := operand_load (w := w) (List.mem_zipIdx_iff_getElem?.mp hv) hg
        rw [← hvs] at hload
        exact ⟨v, hload⟩
    exact ⟨fun _ h => Option.some.inj h ▸ hdirect, fun _ h => Option.some.inj h ▸ hdirect⟩
  · split
    · next i ctor hf =>
      refine ⟨fun source h => ?_, fun source h => ?_⟩
      · obtain ⟨_, -, rfl⟩ := Option.map_eq_some_iff.mp h
        exact .withCarrier rfl (ht.canConstruct hf)
      · obtain rfl := Option.some.inj h
        exact .withCarrier rfl (ht.canConstruct hf)
    · refine ⟨fun _ h => (Option.not_mem_none _ h).elim, fun source h => ?_⟩
      obtain ⟨⟨i, ctor⟩, hf, rfl⟩ := Option.map_eq_some_iff.mp h
      exact .of_default ht hf

end

/-! ## Fields -/

namespace Scene

variable {S : Scene} {r : RegistryId} {registry : Registry} {b c n : ClassId} {h₀ : Heap}

/-- The class of a published implementation is above the abstract class, which is above its bases. -/
theorem Sorted.lt_product (hs : S.Sorted) (h : S.Sound) {i : Implementation}
    (htype : i.type = .cls b) (hbase : S.world.schema.class? b = some i.base)
    (hc : S.world.schema.class? c = some (i.decl S.world.schema)) : b < c := by
  have hbases := Implementation.bases_decl htype hbase
  rcases hs.inherits h hc with ⟨hnone, -⟩ | ⟨b', d', hlt, -, hsome, -⟩
  · rw [hbases] at hnone
    cases hnone
  · rw [hbases] at hsome
    obtain ⟨rfl, -⟩ := List.cons.inj hsome
    exact hlt

/-- A field for an abstract class that has been implemented below: an instance of the implementation can
be built for it, by the descriptor that a lookup finds, or at once. -/
theorem Sound.provides_published (h : S.Sound) (hs : S.Sorted)
    (hr : S.world.registries[r]? = some registry) {f : PropertyField} {e : DescriptorId} {x : Descriptor}
    (hc : registry.cached? f.fieldType = some e) (hx : S.world.descriptors[e]? = some x)
    (ha : S.world.schema.isAbstract f.fieldType = true) (hproduct : x.product = .cls n) (hlt : n < c)
    {l : LookupId} (hl : (S.world.lookups[l]?).map Lookup.question = some (f.fieldType, r)) :
    (∀ carrier, S.world.Provides c (f.step (.lookup l carrier))) ∧
      S.world.Provides c (f.step (.direct x.product defaultIndex [])) := by
  obtain ⟨c₀, i, h₁, report, hd, habs, hi, hp, hdesc⟩ := (h.registries hr).exists_implementation hc hx ha
  obtain ⟨b, hF, -⟩ := Schema.lt_size_of_decl? hd
  have hdeclares := Schema.declares_of_decl? hd
  have hp : S.world.schema.class? n = some (i.decl S.world.schema) := by
    rwa [hproduct] at hp
  have htype : i.type = .cls b := hi.type.trans hF
  have hbase : S.world.schema.class? b = some i.base := by
    rw [hi.base]
    rwa [hF] at hd
  have hb : b < n := hs.lt_product h htype hbase hp
  have hreceiver : S.world.schema.Hears c → S.world.Asks f.fieldType →
      (S.world.schema.receiver? x.product).isSome = true := by
    intro hears hasks
    rw [hproduct, Schema.receiver?_of_bases hp hbase (Implementation.bases_decl htype hbase)]
    rw [World.Asks, hF] at hasks
    exact hears b (Nat.lt_trans hb hlt) hasks
  have hfits : S.world.schema.isAssignable x.product f.fieldType = true := by
    rw [← hi.type]
    exact Implementation.isAssignable (by rw [hi.type, hd]; rfl) (by rw [hproduct]; exact hp)
  refine ⟨fun carrier => ?_, ?_⟩
  · have hcan : S.world.CanConstruct c x.product factoryIndex 1 :=
      ⟨n, _, _, hproduct, hlt, hp, rfl, rfl, rfl, rfl⟩
    refine ⟨hdeclares, x.product, .lookup rfl rfl (fun hanswers => ?_)
      (fun hresolve => (h.resolve_eq hr hc hx hl hresolve).1) (by rw [hdesc]; rfl)
      (by rw [hdesc]; rfl) hcan hfits (by rw [hdesc]; exact hi.type), hreceiver⟩
    obtain ⟨lookup, hlookup, hq⟩ := Option.map_eq_some_iff.mp hl
    obtain ⟨-, hregistry⟩ := Prod.mk.inj hq
    exact h.resolve hr hc hx hl (hanswers lookup hlookup registry (hregistry ▸ hr))
  · have hdirect : S.world.Feasible c (f.step (.direct x.product defaultIndex [])) x.product :=
      .direct rfl ⟨n, _, _, hproduct, hlt, hp, rfl, rfl, rfl, rfl⟩ fun _ ha => nomatch ha
    exact ⟨hdeclares, x.product, hdirect, hreceiver⟩

/-- A field for a class below that is not abstract: the class offers a source for each constructor. -/
theorem provides_concrete (hg : h₀.Grows S.world.heap) {f : PropertyField} {plan : FieldPlan}
    (ho : registry.provider.owns S.world.schema f.fieldType = true)
    (ha : S.world.schema.isAbstract f.fieldType = false)
    (hplan : FieldPlan.ofConcrete (registry.workshop r h₀) f S.world.schema = .ok plan)
    (hbelow : ∀ u ∈ plan.default.source.target?, ∃ k, u = .cls k ∧ k < c) :
    ∃ source factory,
      plan = ⟨f.step source, some (f.step factory), FieldPlan.info? S.world.schema f⟩ ∧
        S.world.Provides c (f.step source) ∧ S.world.Provides c (f.step factory) := by
  obtain ⟨source, rfl, hsource⟩ := FieldPlan.ofConcrete_eq_ok_iff.mp hplan
  obtain ⟨d', hd', hvalue, -⟩ := Provider.exists_of_owns ho
  obtain ⟨b, hF, -⟩ := Schema.lt_size_of_decl? hd'
  have hsources : source.target? = some f.fieldType := by
    rcases hsource with hsome | ⟨-, i, -, rfl⟩
    · exact (FieldPlan.target?_sources h₀ _ f.fieldType f.parameters).1 source hsome
    · rfl
  obtain ⟨b', hb', hlt⟩ := hbelow f.fieldType hsources
  obtain rfl : b = b' := Ty.cls.inj (hF.symm.trans hb')
  have habs : d'.isAbstract = false := by
    simpa [Schema.isAbstract, hd'] using ha
  have hclass : S.world.schema.class? b = some d' := by
    rwa [hF] at hd'
  have ht : S.world.Precedes c f.fieldType := ⟨b, d', hF, hlt, hclass, habs, hvalue⟩
  have hreceiver : S.world.schema.Hears c → S.world.Asks f.fieldType →
      (S.world.schema.receiver? f.fieldType).isSome = true := by
    intro hears hasks
    rw [World.Asks, hF] at hasks
    rw [hF]
    exact hears b hlt hasks
  obtain ⟨hdefault, hfactory⟩ := FieldPlan.sources_feasible hg f ht
  have hstep : S.world.Feasible c (f.step source) f.fieldType ∧
      ((FieldPlan.sources h₀ S.world.schema f.fieldType f.parameters).1.isSome = true ∨
        (S.world.schema.publicDefault? f.fieldType).isSome = true) := by
    rcases hsource with hsome | ⟨-, k, hk, rfl⟩
    · have hsome : (FieldPlan.sources h₀ S.world.schema f.fieldType f.parameters).1 =
          some source := hsome
      exact ⟨hdefault source hsome, .inl (by rw [hsome]; rfl)⟩
    · obtain ⟨ctor, hf⟩ := Schema.publicDefault?_eq_some hk
      exact ⟨.of_default ht hf, .inr (by rw [hk]; rfl)⟩
  obtain ⟨factory, hsome⟩ := Option.isSome_iff_exists.mp (FieldPlan.sources_factory_isSome hstep.2)
  have hdeclares : S.world.schema.Declares f.fieldType := by
    rw [hF]
    exact Schema.declares_of_decl? (t := .cls b) hclass
  refine ⟨source, factory, ?_, ⟨hdeclares, f.fieldType, hstep.1, hreceiver⟩,
    ⟨hdeclares, f.fieldType, hfactory factory hsome, hreceiver⟩⟩
  have hsome : (FieldPlan.sources (registry.workshop r h₀).heap S.world.schema f.fieldType
      f.parameters).2 = some factory := hsome
  rw [hsome]
  rfl

/-- How the fields of an implementation are built, in a scene in which its registry is not about to
publish anything: there is a source for each constructor, and what it refers to is there. -/
theorem Sound.provides (h : S.Sound) (hs : S.Sorted) (hfree : S.commits r = none)
    (hr : S.world.registries[r]? = some registry) (hg : h₀.Grows S.world.heap) {f : PropertyField}
    {plan : FieldPlan} (hplan : FieldPlan.Realizes (registry.workshop r h₀) S.world.schema
      (S.entries r registry) S.world.session f (some plan))
    (hbelow : ∀ u ∈ plan.default.source.target?, ∃ k, u = .cls k ∧ k < c)
    (hneeds : registry.provider.owns S.world.schema f.fieldType = true →
      S.world.schema.isAbstract f.fieldType = true → ∃ e x k, registry.cached? f.fieldType = some e ∧
        S.world.descriptors[e]? = some x ∧ x.product = .cls k ∧ k < c) :
    ∃ source factory,
      plan = ⟨f.step source, some (f.step factory), FieldPlan.info? S.world.schema f⟩ ∧
        S.world.Provides c (f.step source) ∧ S.world.Provides c (f.step factory) := by
  cases hplan with
  | @delegated l e x source ho ha hl hk hx _ hsource =>
    obtain ⟨e', x', k, hc', hx', hproduct, hlt⟩ := hneeds ho ha
    obtain rfl := Option.some.inj (hk.symm.trans ((known?_of_free hfree _).trans hc'))
    obtain rfl := Option.some.inj (hx.symm.trans hx')
    obtain ⟨hlookup, hdirect⟩ := h.provides_published hs hr hc' hx ha hproduct hlt hl
    refine ⟨source, .lookup l .argument, rfl, ?_, hlookup .argument⟩
    rw [hsource]
    cases f.parameters with
    | some vs => exact hlookup .transient
    | none => exact hdirect
  | built ho ha hconcrete => exact provides_concrete hg ho ha hconcrete hbelow

end Scene

/-! ## Plans -/

/-- The fields of properties are at consecutive slots. -/
theorem ForgedProperty.RealizeAll.slots {w : Workshop} {S : Schema} {cache : List (Ty × DescriptorId)}
    {s : Session} {t : Ty} {qs : List PropertyDecl} {slot : Nat} {fs : List ForgedProperty}
    (h : RealizeAll w S cache s t qs slot fs) :
    fs.map (fun f => f.field.slot) = List.range' slot fs.length := by
  induction h with
  | nil => rfl
  | cons hf _ ih =>
    obtain ⟨F, m, -, he⟩ := hf.eq
    rw [List.map_cons, ih, he]
    rfl

/-- Some of the values of a list. -/
theorem sublist_filterMap_map {α β γ : Type} (f : α → β) (g : α → Option γ) (xs : List α) :
    (xs.filterMap fun x => (g x).map fun _ => f x).Sublist (xs.map f) := by
  induction xs with
  | nil => exact .slnil
  | cons x xs ih =>
    rw [List.filterMap_cons, List.map_cons]
    cases g x with
    | none => exact ih.cons _
    | some _ => exact ih.cons_cons _

namespace Implementation

variable {i : Implementation} {w : World} {b c : ClassId}

/-- The constructor of the abstract class that a plan runs. -/
theorem base_supported {s : Schema} (htype : i.type = .cls b) (hbase : w.schema.class? b = some i.base)
    (hlt : b < c) {params : List Ty} {k : Nat} {ctor : ConstructorDecl}
    (hf : w.schema.findConstructor? i.type params = some (k, ctor)) :
    ∃ a d' ctor, i.type = .cls a ∧ a < c ∧ w.schema.class? a = some d' ∧
      d'.constructors[k]? = some ctor ∧ ctor.params.length = params.length ∧
      d'.layout.length ≤ (i.decl s).layout.length := by
  obtain ⟨hk, rfl⟩ := Schema.findConstructor?_eq_some hf
  have hk : i.base.constructors[k]? = some ctor := by
    simpa only [Schema.constructors, htype, Schema.decl?, hbase, Option.elim_some] using hk
  refine ⟨b, i.base, ctor, htype, hlt, hbase, hk, rfl, ?_⟩
  rw [decl, List.length_append]
  exact Nat.le_add_right ..

/-- If each owned field has a step that builds it, then the slots of the steps are the owned ones, in
order. -/
theorem map_slot {g : FieldPlan → Option BuildStep}
    (h : ∀ f ∈ i.properties, ∀ plan, f.plan = some plan →
      (g plan).map BuildStep.slot = some f.field.slot) :
    (i.plans.filterMap g).map BuildStep.slot = i.owned := by
  rw [plans, owned, List.filterMap_filterMap, List.map_filterMap]
  refine List.filterMap_congr fun f hf => ?_
  cases hfp : f.plan with
  | none => rfl
  | some plan => exact h f hf plan hfp

/-- A plan that builds each owned field from a source, and tells the values their properties. -/
theorem supports {s : Schema} {p : ConstructionPlan} {g : FieldPlan → Option BuildStep}
    (hslots : i.properties.map (fun f => f.field.slot) =
      List.range' i.base.layout.length i.properties.length)
    (hfields : ∀ f ∈ i.properties, ∀ plan, f.plan = some plan →
      plan.info = FieldPlan.info? w.schema f.field ∧
        ∃ source, g plan = some (f.field.step source) ∧ w.Provides c (f.field.step source))
    (hsteps : p.steps = i.plans.filterMap g) (hinfos : p.infos = i.infos)
    (hbase : ∀ b ∈ p.base, ∃ a d' ctor, b.target = .cls a ∧ a < c ∧ w.schema.class? a = some d' ∧
      d'.constructors[b.constructor]? = some ctor ∧
      ctor.params.length = (if b.passesCarrier then 1 else 0) ∧
      d'.layout.length ≤ (i.decl s).layout.length) : w.Supports c (i.decl s) p := by
  have hplan : ∀ plan ∈ i.plans, ∃ f ∈ i.properties, f.plan = some plan := fun plan hm =>
    List.mem_filterMap.mp hm
  have hstep : ∀ step ∈ p.steps, ∃ f ∈ i.properties, ∃ source, step = f.field.step source ∧
      w.Provides c step := by
    intro step hm
    rw [hsteps] at hm
    obtain ⟨plan, hplan', hg⟩ := List.mem_filterMap.mp hm
    obtain ⟨f, hf, hfp⟩ := hplan plan hplan'
    obtain ⟨-, source, hsource, hprovides⟩ := hfields f hf plan hfp
    obtain rfl := Option.some.inj (hg.symm.trans hsource)
    exact ⟨f, hf, source, rfl, hprovides⟩
  refine ⟨fun step hm => ?_, ?_, fun step hm => ?_, fun info hm => ?_, hbase⟩
  · obtain ⟨f, hf, source, rfl, hprovides⟩ := hstep step hm
    exact hprovides
  · have howned : p.steps.map BuildStep.slot = i.owned := by
      rw [hsteps]
      refine map_slot fun f hf plan hfp => ?_
      obtain ⟨-, source, hsource, -⟩ := hfields f hf plan hfp
      rw [hsource]
      rfl
    have hsub : i.owned.Sublist _ := sublist_filterMap_map (fun f : ForgedProperty => f.field.slot)
      ForgedProperty.plan i.properties
    rw [hslots] at hsub
    rw [howned]
    exact hsub.nodup List.nodup_range'
  · obtain ⟨f, hf, source, rfl, -⟩ := hstep step hm
    have hslot : f.field.slot ∈ List.range' i.base.layout.length i.properties.length := by
      rw [← hslots]
      exact List.mem_map_of_mem hf
    rw [decl, List.length_append, List.length_map]
    exact (List.mem_range'_1.mp hslot).2
  · rw [hinfos] at hm
    obtain ⟨plan, hplan', hi⟩ := List.mem_filterMap.mp hm
    obtain ⟨f, hf, hfp⟩ := hplan plan hplan'
    obtain ⟨hinfo, source, hsource, -⟩ := hfields f hf plan hfp
    have hmem : f.field.step source ∈ p.steps := by
      rw [hsteps]
      exact List.mem_filterMap.mpr ⟨plan, hplan', hsource⟩
    rw [hinfo, FieldPlan.info?] at hi
    split at hi
    · next hasks =>
      obtain rfl := Option.some.inj hi
      exact ⟨f.field.step source, hmem, rfl, hasks⟩
    · cases hi

end Implementation

/-- **What the plans of a class refer to is there**, in a scene in which no registry is about to
publish anything. -/
theorem Scene.Sound.supports {S : Scene} {c : ClassId} {d : ClassDecl} (h : S.Sound)
    (hs : S.Sorted) (hquiet : ∀ r, S.commits r = none)
    (hd : S.world.schema.class? c = some d) {ctor : ConstructorDecl} (hctor : ctor ∈ d.constructors)
    {p : ConstructionPlan} (hp : ctor.body = .plan p) : S.world.Supports c d p := by
  obtain ⟨r, registry, hr, hmakes⟩ := (hs c d hd).resolve_left fun hwritten =>
    hwritten.plans ctor hctor p hp
  have hat := h.registries hr
  obtain ⟨b, c₀, e, i, h₀, hlt, hb, habs, hknown, hg, hi, rfl, hneeds⟩ := hmakes.spec hat hd
  have hbase : S.world.schema.class? b = some i.base := hi.base ▸ hb
  have ha : S.world.schema.isAbstract (.cls b) = true := by
    simp [Schema.isAbstract, Schema.decl?, hb, habs]
  have hslots := hi.properties.slots
  rw [← hi.base] at hslots
  have hfields : ∀ f ∈ i.properties, ∀ plan, f.plan = some plan → ∃ source factory,
      plan = ⟨f.field.step source, some (f.field.step factory),
        FieldPlan.info? S.world.schema f.field⟩ ∧
      S.world.Provides c (f.field.step source) ∧ S.world.Provides c (f.field.step factory) := by
    intro f hf plan hfp
    obtain ⟨q, hq, k, hk⟩ := hi.properties.mem hf
    obtain ⟨F, m, hchooses, he⟩ := hk.eq
    have hrealizes := hk.plan
    rw [hfp] at hrealizes
    refine h.provides hs (hquiet r) hr hg hrealizes (fun u hu => ?_) fun ho habstract => ?_
    · refine hmakes.below ⟨[], true, .plan (i.defaultPlan S.world.schema)⟩ List.mem_cons_self _ rfl
        plan.default (List.mem_map_of_mem ?_) u hu
      exact List.mem_filterMap.mpr ⟨f, hf, hfp⟩
    · have hF : f.field.fieldType = F := by rw [he]
      rw [hF] at ho habstract ⊢
      obtain ⟨e', x', k, hk, hx, hproduct, hlt⟩ := hneeds F ⟨ha, q, hq, m, hchooses, ho, habstract⟩
      exact ⟨e', x', k, (known?_of_free (hquiet r) F).symm.trans hk, hx, hproduct, hlt⟩
  have hdefault : ∀ k ctor', S.world.schema.findConstructor? i.type [] = some (k, ctor') → _ :=
    fun k ctor' => Implementation.base_supported (s := S.world.schema) hi.type hbase hlt
  have hfactory : ∀ k ctor', S.world.schema.findConstructor? i.type [.carrier] = some (k, ctor') →
    _ := fun k ctor' => Implementation.base_supported (s := S.world.schema) hi.type hbase hlt
  rcases List.mem_pair.mp hctor with rfl | rfl
  · obtain rfl := ConstructorBody.plan.inj hp
    refine Implementation.supports (g := fun plan => some plan.default) hslots (fun f hf plan hfp => ?_)
      (congrFun List.filterMap_eq_map i.plans).symm rfl fun b' hb' => ?_
    · obtain ⟨source, factory, rfl, hprovides, -⟩ := hfields f hf plan hfp
      exact ⟨rfl, source, rfl, hprovides⟩
    · obtain ⟨⟨k, ctor'⟩, hf, rfl⟩ := Option.map_eq_some_iff.mp hb'
      exact hdefault k ctor' hf
  · obtain rfl := ConstructorBody.plan.inj hp
    refine Implementation.supports (g := FieldPlan.factory) hslots (fun f hf plan hfp => ?_) rfl rfl
      fun b' hb' => ?_
    · obtain ⟨source, factory, rfl, -, hprovides⟩ := hfields f hf plan hfp
      exact ⟨rfl, factory, rfl, hprovides⟩
    · rcases Option.or_eq_some_iff.mp hb' with hb' | ⟨-, hb'⟩
      · obtain ⟨⟨k, ctor'⟩, hf, rfl⟩ := Option.map_eq_some_iff.mp hb'
        exact hfactory k ctor' hf
      · obtain ⟨⟨k, ctor'⟩, hf, rfl⟩ := Option.map_eq_some_iff.mp hb'
        exact hdefault k ctor' hf

end RecordForge
