import RecordForge.Proofs.Schema.Growth
import RecordForge.Synthesis.Property

/-!
# The field of a property, declaratively

`PropertyField.choose` searches the replacement types of a property; `Provider.Chooses` says what it
finds. `FieldPlan.ofConcrete` tries one constructor after the other; `Provider.CanBuild` says when
one of them is there. Neither search depends on what a session has added to the schema.
-/

namespace RecordForge

variable {p : Provider} {w : Workshop} {S s : Schema} {t F : Ty} {q : PropertyDecl}

/-! ## Declarations -/

/-- The abstract public properties of a class: those that its implementation has to provide. -/
def Schema.abstractProperties (s : Schema) (t : Ty) : List PropertyDecl :=
  ((s.publicProperties t).map Prod.snd).filter PropertyDecl.isAbstract

theorem Schema.mem_abstractProperties :
    q ∈ s.abstractProperties t ↔ (∃ a, (a, q) ∈ s.publicProperties t) ∧ q.isAbstract = true := by
  simp [abstractProperties]

theorem Schema.abstractProperties_eq (h : S.Extends s) (hS : S.Closed) (ht : S.Declares t) :
    s.abstractProperties t = S.abstractProperties t := by
  simp only [abstractProperties, publicProperties_eq h hS ht]

theorem Schema.Closed.declares_abstractProperty (hs : s.Closed)
    (hq : q ∈ s.abstractProperties t) : s.Declares q.type := by
  obtain ⟨⟨a, ha⟩, -⟩ := mem_abstractProperties.mp hq
  exact hs.declares_property ha

namespace Provider

/-- The replacement types that a provider gives for abstract properties are declared. -/
def Within (p : Provider) (s : Schema) : Prop :=
  ∀ t, s.isAbstract t = true → ∀ q ∈ s.abstractProperties t, ∀ u ∈ p.overrides t q, s.Declares u

/-- What is attached to properties consists of declared types. -/
theorem attributes_within (hs : s.Closed) : attributes.Within s := by
  intro t _ q hq u hu
  obtain ⟨⟨a, ha⟩, -⟩ := Schema.mem_abstractProperties.mp hq
  exact hs.declares_mapType ha hu

/-- Whether a type is a mapped class that is shared by reference. -/
def owns (p : Provider) (s : Schema) (F : Ty) : Bool :=
  (s.decl? F).any fun d => !d.isValueType && p.isMapped F d

theorem exists_of_owns (ho : p.owns s F = true) :
    ∃ d, s.decl? F = some d ∧ d.isValueType = false ∧ p.isMapped F d = true := by
  rw [owns] at ho
  cases hd : s.decl? F with
  | none => simp [hd] at ho
  | some d =>
    simp only [hd, Option.any_some, Bool.and_eq_true, Bool.not_eq_true'] at ho
    exact ⟨d, rfl, ho⟩

theorem owns_eq (h : S.Extends s) (hF : S.Declares F) : p.owns s F = p.owns S F := by
  simp only [owns, Schema.decl?_eq h hF]

/-! ## Choosing the field type -/

/-- The field type of a property and its value member: the declared type if nothing replaces it,
else the first replacement type that has a value member for the declared type. -/
inductive Chooses (p : Provider) (s : Schema) (t : Ty) (q : PropertyDecl) :
    Ty → Option ValueMember → Prop
  | declared (h : p.overrides t q = []) : Chooses p s t q q.type none
  | replaced {before after : List Ty} {F : Ty} {m : ValueMember}
      (h : p.overrides t q = before ++ F :: after)
      (hb : ∀ u ∈ before, s.valueMember? u q.type = none)
      (hm : s.valueMember? F q.type = some m) : Chooses p s t q F (some m)

/-- The first replacement type with a value member, as the search finds it. -/
theorem findSome?_overrides_eq_some {m : ValueMember} :
    ((p.overrides t q).findSome? fun u => (s.valueMember? u q.type).map fun m => (u, m)) =
        some (F, m) ↔
      ∃ before after, p.overrides t q = before ++ F :: after ∧
        s.valueMember? F q.type = some m ∧ ∀ u ∈ before, s.valueMember? u q.type = none := by
  rw [List.findSome?_eq_some_iff]
  constructor
  · rintro ⟨before, u, after, h, hu, hb⟩
    obtain ⟨m', hm', he⟩ := Option.map_eq_some_iff.mp hu
    obtain ⟨rfl, rfl⟩ := Prod.mk.inj he
    exact ⟨before, after, h, hm', fun v hv => Option.map_eq_none_iff.mp (hb v hv)⟩
  · rintro ⟨before, after, h, hm, hb⟩
    exact ⟨before, F, after, h, by rw [hm]; rfl, fun v hv => Option.map_eq_none_iff.mpr (hb v hv)⟩

theorem Chooses.unique {F' : Ty} {m m' : Option ValueMember} (h : p.Chooses s t q F m)
    (h' : p.Chooses s t q F' m') : F = F' ∧ m = m' := by
  cases h with
  | declared h =>
    cases h' with
    | declared => exact ⟨rfl, rfl⟩
    | replaced h' => simp [h] at h'
  | replaced h hb hm =>
    cases h' with
    | declared h' => simp [h'] at h
    | replaced h' hb' hm' =>
      have hf := findSome?_overrides_eq_some.mpr ⟨_, _, h, hm, hb⟩
      have hf' := findSome?_overrides_eq_some.mpr ⟨_, _, h', hm', hb'⟩
      obtain ⟨rfl, rfl⟩ := Prod.mk.inj (Option.some.inj (hf.symm.trans hf'))
      exact ⟨rfl, rfl⟩

/-- What is chosen for a class that was declared at the beginning was chosen then. -/
theorem Chooses.rebase {m : Option ValueMember} (h : p.Chooses s t q F m) (hs : S.Extends s)
    (hS : S.Closed) (hp : p.Within S) (ha : S.isAbstract t = true)
    (hq : q ∈ S.abstractProperties t) : p.Chooses S t q F m := by
  have hqt := hS.declares_abstractProperty hq
  have hmember : ∀ u ∈ p.overrides t q, s.valueMember? u q.type = S.valueMember? u q.type :=
    fun u hu => Schema.valueMember?_eq hs hS (hp t ha q hq u hu) hqt
  cases h with
  | declared h => exact .declared h
  | @replaced before after F m h hb hm =>
    refine .replaced h (fun u hu => ?_) ?_
    · rw [← hmember u (by simp [h, hu])]
      exact hb u hu
    · rw [← hmember F (by simp [h])]
      exact hm

theorem Chooses.declares {m : Option ValueMember} (h : p.Chooses s t q F m) (hs : s.Closed)
    (hp : p.Within s) (ht : s.isAbstract t = true) (hq : q ∈ s.abstractProperties t) :
    s.Declares F := by
  cases h with
  | declared => exact hs.declares_abstractProperty hq
  | replaced h => exact hp t ht q hq F (by simp [h])

end Provider

namespace PropertyField

/-- `choose` succeeds with what is chosen. -/
theorem choose_eq_ok_iff {slot : Nat} {f : PropertyField} :
    choose w s t q slot = .ok f ↔
      ∃ F m, w.provider.Chooses s t q F m ∧
        f = ⟨t, q, F, m, w.provider.parameters t q, slot⟩ := by
  simp only [choose]
  split
  · next u m hfound =>
    obtain ⟨before, after, ho, hm, hb⟩ := Provider.findSome?_overrides_eq_some.mp hfound
    have hc : w.provider.Chooses s t q u (some m) := .replaced ho hb hm
    constructor
    · intro h
      exact ⟨u, some m, hc, (Except.ok.inj h).symm⟩
    · rintro ⟨F, m', hc', rfl⟩
      obtain ⟨rfl, rfl⟩ := hc.unique hc'
      rfl
  · next hnone =>
    have hno : ∀ u ∈ w.provider.overrides t q, s.valueMember? u q.type = none := fun u hu =>
      Option.map_eq_none_iff.mp (List.findSome?_eq_none_iff.mp hnone u hu)
    split
    · next u hlast =>
      have hu : u ∈ w.provider.overrides t q := List.mem_of_getLast? hlast
      constructor
      · intro h; cases h
      · rintro ⟨F, m, hc, -⟩
        cases hc with
        | declared h => simp [h] at hu
        | replaced h hb hm => rw [hno _ (by simp [h])] at hm; cases hm
    · next hlast =>
      have he : w.provider.overrides t q = [] := List.getLast?_eq_none_iff.mp hlast
      constructor
      · intro h
        exact ⟨q.type, none, .declared he, (Except.ok.inj h).symm⟩
      · rintro ⟨F, m, hc, rfl⟩
        obtain ⟨rfl, rfl⟩ := hc.unique (.declared he)
        rfl

theorem choose_eq (h : S.Extends s) (hS : S.Closed) (hp : w.provider.Within S)
    (ht : S.isAbstract t = true) (hd : S.Declares t) (hq : q ∈ S.abstractProperties t)
    (slot : Nat) : choose w s t q slot = choose w S t q slot := by
  have hdecl : ∀ u ∈ w.provider.overrides t q, S.Declares u := hp t ht q hq
  have hqt := hS.declares_abstractProperty hq
  have hfound : ((w.provider.overrides t q).findSome? fun u =>
        (s.valueMember? u q.type).map fun m => (u, m)) =
      (w.provider.overrides t q).findSome? fun u =>
        (S.valueMember? u q.type).map fun m => (u, m) := by
    generalize w.provider.overrides t q = us at hdecl
    induction us with
    | nil => rfl
    | cons u us ih =>
      simp only [List.findSome?_cons,
        Schema.valueMember?_eq h hS (hdecl u List.mem_cons_self) hqt,
        ih fun v hv => hdecl v (List.mem_cons_of_mem _ hv)]
  simp only [choose, hfound]
  split
  · rfl
  · split
    · next u hlast =>
      rw [Schema.shortName_eq h (hdecl u (List.mem_of_getLast? hlast)), Schema.shortName_eq h hd]
    · rfl

end PropertyField

/-! ## Building the value of a field whose type is not abstract -/

theorem Schema.findConstructor?_isSome {params : List Ty} :
    (s.findConstructor? F params).isSome = true ↔ ∃ c ∈ s.constructors F, c.params = params := by
  simp only [findConstructor?, Option.isSome_map, List.find?_isSome]
  constructor
  · rintro ⟨⟨c, i⟩, hc, hp⟩
    exact ⟨c, List.fst_mem_of_mem_zipIdx hc, by simpa using hp⟩
  · rintro ⟨c, hc, hp⟩
    obtain ⟨i, hlt, rfl⟩ := List.mem_iff_getElem.mp hc
    exact ⟨(_, i), List.mk_mem_zipIdx_iff_getElem?.mpr (List.getElem?_eq_getElem hlt),
      by simpa using hp⟩

/-- There is a way to build a value of a class for a property: a constructor that takes exactly its
construction parameters, one that takes a carrier if there are parameters, or a public one without
arguments. -/
def Provider.CanBuild (p : Provider) (h : Heap) (s : Schema) (t : Ty) (q : PropertyDecl)
    (F : Ty) : Prop :=
  (∃ vs, p.parameters t q = some vs ∧
    ((∃ c ∈ s.constructors F, c.params = vs.map (Schema.typeOf h)) ∨
      ∃ c ∈ s.constructors F, c.params = [.carrier])) ∨
  ∃ i c, s.defaultConstructor? F = some (i, c) ∧ c.isPublic = true

namespace FieldPlan

variable {f : PropertyField} {h : Heap} {params : Option (List Value)}

theorem matching?_isSome {vs : List Value} :
    (matching? h s F vs).isSome = true ↔
      ∃ c ∈ s.constructors F, c.params = vs.map (Schema.typeOf h) := by
  rw [matching?, Option.isSome_map, Schema.findConstructor?_isSome]

/-- The parameters decide what the default constructor does if they match a constructor, or if
there are any and a constructor takes a carrier. -/
theorem sources_default_isSome :
    (sources h s F params).1.isSome = true ↔
      ∃ vs, params = some vs ∧
        ((∃ c ∈ s.constructors F, c.params = vs.map (Schema.typeOf h)) ∨
          ∃ c ∈ s.constructors F, c.params = [.carrier]) := by
  simp only [← matching?_isSome, ← Schema.findConstructor?_isSome, sources]
  cases params with
  | none =>
    simp only [Option.bind_none]
    split <;> simp
  | some vs =>
    simp only [Option.bind_some]
    split
    · next hm => simp [hm]
    · next hm => split <;> simp_all

theorem fallback_isOk {target : Ty} :
    (∃ source, fallback s f target = .ok source) ↔
      ∃ i c, s.defaultConstructor? target = some (i, c) ∧ c.isPublic = true := by
  simp only [fallback, Schema.publicDefault?]
  cases s.defaultConstructor? target with
  | none => simp
  | some ic =>
    obtain ⟨i, c⟩ := ic
    by_cases hc : c.isPublic = true <;> simp [Option.filter, hc]

theorem fallback_eq_ok_iff {target : Ty} {source : Source} :
    fallback s f target = .ok source ↔
      ∃ i, s.publicDefault? target = some i ∧ source = .direct target i [] := by
  simp only [fallback]
  cases s.publicDefault? target with
  | none => simp
  | some i => simp [eq_comm]

/-- The plan of a field whose type is not abstract: the factory constructor uses what the
constructors of the type offer, the default constructor too, or else a public constructor without
arguments. -/
theorem ofConcrete_eq_ok_iff {plan : FieldPlan} :
    ofConcrete w f s = .ok plan ↔
      ∃ source, plan = ⟨f.step source,
          (sources w.heap s f.fieldType f.parameters).2.map f.step, info? s f⟩ ∧
        ((sources w.heap s f.fieldType f.parameters).1 = some source ∨
          (sources w.heap s f.fieldType f.parameters).1 = none ∧
            ∃ i, s.publicDefault? f.fieldType = some i ∧ source = .direct f.fieldType i []) := by
  simp only [ofConcrete, ← fallback_eq_ok_iff (f := f)]
  cases sources w.heap s f.fieldType f.parameters with
  | mk default factory =>
    cases default with
    | some source => simp [bind, Except.bind, pure, Except.pure, eq_comm]
    | none =>
      cases fallback s f f.fieldType with
      | ok source => simp [bind, Except.bind, pure, Except.pure, eq_comm]
      | error e => simp [bind, Except.bind]

/-- There is always a source for the factory constructor, unless the class has no constructor without
arguments and the default constructor has no source either. -/
theorem sources_factory_isSome (hany : (sources h s F params).1.isSome = true ∨
    (s.publicDefault? F).isSome = true) : (sources h s F params).2.isSome = true := by
  revert hany
  rw [sources]
  split
  · exact fun _ => rfl
  · split
    · exact fun _ => rfl
    · intro hany
      have hpublic := hany.resolve_left fun h => nomatch h
      rw [Schema.publicDefault?, Option.isSome_map] at hpublic
      obtain ⟨c, hc⟩ := Option.isSome_iff_exists.mp hpublic
      rw [(Option.filter_eq_some_iff.mp hc).1]
      rfl

/-- A class that is not abstract is built exactly if there is a way to build it. -/
theorem ofConcrete_isOk_iff (hf : f.parameters = w.provider.parameters f.owner f.property) :
    (∃ plan, ofConcrete w f s = .ok plan) ↔
      w.provider.CanBuild w.heap s f.owner f.property f.fieldType := by
  have hs : (sources w.heap s f.fieldType f.parameters).1.isSome = true ↔ _ :=
    sources_default_isSome
  rw [Provider.CanBuild, ← hf, ← hs, ← fallback_isOk (f := f)]
  simp only [ofConcrete_eq_ok_iff, fallback_eq_ok_iff]
  cases (sources w.heap s f.fieldType f.parameters).1 with
  | some source => simp
  | none => simp

section
variable (he : S.Extends s) (hF : S.Declares f.fieldType)
include he hF

theorem sources_eq : sources h s f.fieldType params = sources h S f.fieldType params := by
  have hm : matching? h s f.fieldType = matching? h S f.fieldType := by
    funext vs
    simp only [matching?, Schema.findConstructor?_eq he hF]
  simp only [sources, hm, Schema.findConstructor?_eq he hF, Schema.defaultConstructor?_eq he hF]

theorem info?_eq : info? s f = info? S f := by
  simp only [info?, Schema.implementsInterface_eq he hF]

theorem ofConcrete_eq : ofConcrete w f s = ofConcrete w f S := by
  simp only [ofConcrete, sources_eq he hF, info?_eq he hF, fallback,
    Schema.publicDefault?_eq he hF, Schema.shortName_eq he hF]

end

end FieldPlan

/-! ## Writing the property -/

/-- The value member, if there is one, can be written, or the property need not be. -/
def PropertyDecl.MayUse (q : PropertyDecl) (m : Option ValueMember) : Prop :=
  ∀ x ∈ m, x.isWritable = true ∨ q.hasSetter = false

namespace PropertyField

variable {f : PropertyField}

theorem setterShape_isOk_iff :
    (∃ shape, f.setterShape s = .ok shape) ↔ f.property.MayUse f.member := by
  simp only [setterShape, PropertyDecl.MayUse]
  cases f.member with
  | none => simp
  | some m =>
    cases hm : m.isWritable <;> cases hp : f.property.hasSetter <;> simp [hm]

theorem setterShape_eq (he : S.Extends s) (hF : S.Declares f.fieldType)
    (ho : S.Declares f.owner) : f.setterShape s = f.setterShape S := by
  simp only [setterShape, Schema.shortName_eq he hF, Schema.shortName_eq he ho]

end PropertyField

end RecordForge
