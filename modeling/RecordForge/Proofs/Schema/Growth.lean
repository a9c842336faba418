import Mathlib.Data.List.Basic
import Mathlib.Data.List.Find
import RecordForge.Provider
import RecordForge.ValueMember

/-!
# Schemas that grow

A schema only ever grows: classes and enumerations are added behind those that are there. So what a
schema says about a type that it declares stays true in every later one. That needs the schema to be
**closed**: what its classes mention, they declare.

`Extends` is growth, `Declares` that a type is there, and `Closed` that no declaration mentions a
type that is not. Every query of a class has a lemma here: its answer for a declared type is the
same in an extension of a closed schema.
-/

namespace RecordForge.Schema

/-- Whether a type is there: a class or an enumeration has a declaration, the other types need
none. -/
def Declares (s : Schema) : Ty → Prop
  | .cls c => (s.class? c).isSome
  | .enum e => (s.enums[e]?).isSome
  | .any | .carrier | .scalar _ => True

/-- Every class and enumeration of `s` is one of `s'`, under the same number. -/
structure Extends (s s' : Schema) : Prop where
  classes : ∀ {c : ClassId} {d}, s.class? c = some d → s'.class? c = some d
  enums : ∀ {e : EnumId} {d}, s.enums[e]? = some d → s'.enums[e]? = some d

/-- A class mentions declared types only. -/
structure Covers (s : Schema) (d : ClassDecl) : Prop where
  bases : ∀ b ∈ d.bases, s.Declares (.cls b)
  fields : ∀ f ∈ d.layout, s.Declares f.type
  properties : ∀ p ∈ d.properties, s.Declares p.type
  mapTypes : ∀ p ∈ d.properties, ∀ u ∈ p.mapTypes, s.Declares u

/-- No class mentions a type that is not declared. -/
def Closed (s : Schema) : Prop := ∀ {c d}, s.class? c = some d → s.Covers d

variable {s s' s'' : Schema} {t : Ty}

/-! ## Growth -/

theorem Extends.refl (s : Schema) : s.Extends s := ⟨id, id⟩

theorem Extends.trans (h : s.Extends s') (h' : s'.Extends s'') : s.Extends s'' :=
  ⟨fun hc => h'.classes (h.classes hc), fun he => h'.enums (h.enums he)⟩

theorem Extends.size_le (h : s.Extends s') : s.classes.size ≤ s'.classes.size := by
  by_contra hlt
  have hc : s.class? s'.classes.size = some s.classes[s'.classes.size] :=
    Array.getElem?_eq_getElem (Nat.lt_of_not_le hlt)
  exact Nat.lt_irrefl _ (Array.getElem?_eq_some_iff.mp (h.classes hc)).1

theorem extends_addClass (s : Schema) (d : ClassDecl) : s.Extends (s.addClass d).2 := by
  refine ⟨fun {c d'} hc => ?_, id⟩
  have hlt : c < s.classes.size := (Array.getElem?_eq_some_iff.mp hc).1
  show (s.classes.push d)[c]? = some d'
  rw [Array.getElem?_push_lt hlt, ← Array.getElem?_eq_getElem hlt]
  exact hc

theorem extends_addEnum (s : Schema) (d : EnumDecl) : s.Extends (s.addEnum d).2 := by
  refine ⟨id, fun {e d'} he => ?_⟩
  have hlt : e < s.enums.size := (Array.getElem?_eq_some_iff.mp he).1
  show (s.enums.push d)[e]? = some d'
  rw [Array.getElem?_push_lt hlt, ← Array.getElem?_eq_getElem hlt]
  exact he

/-- The class that was added is there under the next number. -/
theorem class?_addClass (s : Schema) (d : ClassDecl) :
    (s.addClass d).2.class? (s.addClass d).1 = some d := by
  show (s.classes.push d)[s.classes.size]? = some d
  exact Array.getElem?_push_size

theorem class?_addClass_eq_some {d d' : ClassDecl} {c : ClassId}
    (h : (s.addClass d).2.class? c = some d') :
    c = (s.addClass d).1 ∧ d' = d ∨ s.class? c = some d' := by
  have h : (s.classes.push d)[c]? = some d' := h
  rw [Array.getElem?_push] at h
  split at h
  · next hc => exact .inl ⟨hc, (Option.some.inj h).symm⟩
  · exact .inr h

theorem lt_size_of_class? {c : ClassId} {d : ClassDecl} (h : s.class? c = some d) :
    c < s.classes.size := (Array.getElem?_eq_some_iff.mp h).1

/-- A type with a declaration is a class by number. -/
theorem lt_size_of_decl? {d : ClassDecl} (h : s.decl? t = some d) :
    ∃ c, t = .cls c ∧ c < s.classes.size := by
  cases t with
  | cls c => exact ⟨c, rfl, lt_size_of_class? h⟩
  | any => simp [decl?] at h
  | carrier => simp [decl?] at h
  | scalar k => simp [decl?] at h
  | enum e => simp [decl?] at h

theorem Declares.mono (h : s.Extends s') (ht : s.Declares t) : s'.Declares t := by
  cases t with
  | cls c =>
    obtain ⟨d, hd⟩ := Option.isSome_iff_exists.mp ht
    exact Option.isSome_iff_exists.mpr ⟨d, h.classes hd⟩
  | enum e =>
    obtain ⟨d, hd⟩ := Option.isSome_iff_exists.mp ht
    exact Option.isSome_iff_exists.mpr ⟨d, h.enums hd⟩
  | any => trivial
  | carrier => trivial
  | scalar k => trivial

theorem declares_of_decl? {d : ClassDecl} (h : s.decl? t = some d) : s.Declares t := by
  cases t with
  | cls c => exact Option.isSome_iff_exists.mpr ⟨d, h⟩
  | any => trivial
  | carrier => trivial
  | scalar k => trivial
  | enum e => simp [decl?] at h

theorem name_of_not_declares (ht : ¬ s.Declares t) : s.name t = "" := by
  cases t with
  | cls c =>
    have hc : s.class? c = none := Option.not_isSome_iff_eq_none.mp ht
    simp only [name, hc, Option.elim_none]
  | enum e =>
    have he : s.enums[e]? = none := Option.not_isSome_iff_eq_none.mp ht
    simp only [name, he, Option.elim_none]
  | any => exact absurd trivial ht
  | carrier => exact absurd trivial ht
  | scalar k => exact absurd trivial ht

theorem exists_of_isAbstract (h : s.isAbstract t = true) :
    ∃ d, s.decl? t = some d ∧ d.isAbstract = true := by
  rw [isAbstract] at h
  cases hd : s.decl? t with
  | none => simp [hd] at h
  | some d => exact ⟨d, rfl, by simpa [hd] using h⟩

theorem Covers.mono {d : ClassDecl} (h : s.Extends s') (hd : s.Covers d) : s'.Covers d :=
  ⟨fun b hb => (hd.bases b hb).mono h, fun f hf => (hd.fields f hf).mono h,
    fun p hp => (hd.properties p hp).mono h, fun p hp u hu => (hd.mapTypes p hp u hu).mono h⟩

theorem Closed.covers (hs : s.Closed) {d : ClassDecl} (h : s.decl? t = some d) : s.Covers d := by
  cases t with
  | cls c => exact hs h
  | any => simp [decl?] at h
  | carrier => simp [decl?] at h
  | scalar k => simp [decl?] at h
  | enum e => simp [decl?] at h

/-- A closed schema stays closed when a class is added that mentions what is declared then. -/
theorem Closed.addClass (hs : s.Closed) {d : ClassDecl} (hd : (s.addClass d).2.Covers d) :
    (s.addClass d).2.Closed := by
  intro c d' hc
  rcases class?_addClass_eq_some hc with ⟨-, rfl⟩ | hc
  · exact hd
  · exact (hs hc).mono (extends_addClass s d)

/-- Closedness, class by class. -/
theorem closed_iff : s.Closed ↔ ∀ d ∈ s.classes.toList, s.Covers d := by
  constructor
  · intro hs d hd
    obtain ⟨c, hc⟩ := Array.getElem?_of_mem (Array.mem_toList_iff.mp hd)
    exact hs hc
  · intro hs c d hc
    exact hs d (Array.mem_toList_iff.mpr (Array.mem_of_getElem? hc))

instance (s : Schema) (t : Ty) : Decidable (s.Declares t) :=
  match t with
  | .cls c => inferInstanceAs (Decidable ((s.class? c).isSome = true))
  | .enum e => inferInstanceAs (Decidable ((s.enums[e]?).isSome = true))
  | .any | .carrier | .scalar _ => .isTrue trivial

instance (s : Schema) (d : ClassDecl) : Decidable (s.Covers d) :=
  decidable_of_iff
    ((∀ b ∈ d.bases, s.Declares (.cls b)) ∧ (∀ f ∈ d.layout, s.Declares f.type) ∧
      (∀ p ∈ d.properties, s.Declares p.type) ∧
      ∀ p ∈ d.properties, ∀ u ∈ p.mapTypes, s.Declares u)
    ⟨fun ⟨hb, hf, hp, hm⟩ => ⟨hb, hf, hp, hm⟩, fun h => ⟨h.1, h.2, h.3, h.4⟩⟩

instance (s : Schema) : Decidable s.Closed := decidable_of_iff _ closed_iff.symm

/-! ## Queries of one declaration -/

section
variable (h : s.Extends s') (ht : s.Declares t)
include h ht

theorem decl?_eq : s'.decl? t = s.decl? t := by
  cases t with
  | cls c =>
    obtain ⟨d, hd⟩ := Option.isSome_iff_exists.mp ht
    show s'.class? c = s.class? c
    rw [hd, h.classes hd]
  | any => rfl
  | carrier => rfl
  | scalar k => rfl
  | enum e => rfl

theorem enum?_eq : s'.enum? t = s.enum? t := by
  cases t with
  | enum e =>
    obtain ⟨d, hd⟩ := Option.isSome_iff_exists.mp ht
    show s'.enums[e]? = s.enums[e]?
    rw [hd, h.enums hd]
  | any => rfl
  | carrier => rfl
  | scalar k => rfl
  | cls c => rfl

theorem name_eq : s'.name t = s.name t := by
  cases t with
  | cls c =>
    have hc := decl?_eq h ht
    simp only [decl?] at hc
    simp only [name, hc]
  | enum e =>
    have he := enum?_eq h ht
    simp only [enum?] at he
    simp only [name, he]
  | any => rfl
  | carrier => rfl
  | scalar k => rfl

theorem shortName_eq : s'.shortName t = s.shortName t := by
  simp only [shortName, name_eq h ht]

theorem underlying?_eq : s'.underlying? t = s.underlying? t := by
  simp only [underlying?, enum?_eq h ht]

theorem isEnum_eq : s'.isEnum t = s.isEnum t := by
  simp only [isEnum, enum?_eq h ht]

theorem isClass_eq : s'.isClass t = s.isClass t := by
  simp only [isClass, decl?_eq h ht]

theorem isAbstract_eq : s'.isAbstract t = s.isAbstract t := by
  simp only [isAbstract, decl?_eq h ht]

theorem bases_eq : s'.bases t = s.bases t := by
  simp only [bases, decl?_eq h ht]

theorem ancestors_eq : s'.ancestors t = s.ancestors t := by
  simp only [ancestors, bases_eq h ht]

theorem isSubclass_eq (other : Ty) : s'.isSubclass t other = s.isSubclass t other := by
  simp only [isSubclass, bases_eq h ht]

theorem isAssignable_eq (target : Ty) : s'.isAssignable t target = s.isAssignable t target := by
  simp only [isAssignable, isSubclass_eq h ht]

theorem implementsInterface_eq (interface : String) :
    s'.implementsInterface t interface = s.implementsInterface t interface := by
  simp only [implementsInterface, decl?_eq h ht]

theorem fields_eq : s'.fields t = s.fields t := by
  simp only [fields, decl?_eq h ht]

theorem constructors_eq : s'.constructors t = s.constructors t := by
  simp only [constructors, decl?_eq h ht]

theorem findConstructor?_eq (params : List Ty) :
    s'.findConstructor? t params = s.findConstructor? t params := by
  simp only [findConstructor?, constructors_eq h ht]

theorem defaultConstructor?_eq : s'.defaultConstructor? t = s.defaultConstructor? t :=
  findConstructor?_eq h ht []

theorem publicDefault?_eq : s'.publicDefault? t = s.publicDefault? t := by
  simp only [publicDefault?, defaultConstructor?_eq h ht]

theorem blank_eq : s'.blank t = s.blank t := by
  cases t with
  | cls c =>
    have hc := decl?_eq h ht
    simp only [decl?] at hc
    simp only [blank, hc]
  | enum e =>
    show (s'.underlying? (.enum e)).elim _ _ = (s.underlying? (.enum e)).elim _ _
    rw [underlying?_eq h ht]
  | any => rfl
  | carrier => rfl
  | scalar k => rfl

end

/-! ## Queries of the lineage -/

/-- The ancestors of a declared type are declared. -/
theorem Closed.declares_of_mem_ancestors (hs : s.Closed) (ht : s.Declares t) {a : Ty}
    (ha : a ∈ s.ancestors t) : s.Declares a := by
  rcases List.mem_cons.mp ha with rfl | ha
  · exact ht
  · simp only [bases] at ha
    cases hd : s.decl? t with
    | none => simp [hd] at ha
    | some d =>
      simp only [hd, Option.elim_some, List.mem_map] at ha
      obtain ⟨b, hb, rfl⟩ := ha
      exact (hs.covers hd).bases b hb

theorem decl?_of_mem_lineage {a : Ty} {d : ClassDecl} (h : (a, d) ∈ s.lineage t) :
    s.decl? a = some d := by
  obtain ⟨a', -, h⟩ := List.mem_filterMap.mp h
  cases hd : s.decl? a' with
  | none => simp [hd] at h
  | some d' =>
    simp only [hd, Option.map_some, Option.some.injEq, Prod.mk.injEq] at h
    rw [← h.1, hd, h.2]

section
variable (h : s.Extends s') (hs : s.Closed) (ht : s.Declares t)
include h hs ht

theorem lineage_eq : s'.lineage t = s.lineage t := by
  simp only [lineage, ancestors_eq h ht]
  apply List.filterMap_congr
  intro a ha
  rw [decl?_eq h (hs.declares_of_mem_ancestors ht ha)]

theorem publicFields_eq : s'.publicFields t = s.publicFields t := by
  simp only [publicFields, lineage_eq h hs ht]

theorem publicProperties_eq : s'.publicProperties t = s.publicProperties t := by
  simp only [publicProperties, lineage_eq h hs ht]

end

/-! ## Value members -/

section
variable {desired member : Ty}

theorem isMatch_eq (h : s.Extends s') (hd : s.Declares desired) (hm : s.Declares member) :
    s'.isMatch desired member = s.isMatch desired member := by
  simp only [isMatch, underlying?_eq h hd, underlying?_eq h hm]

theorem isBaseMatch_eq (h : s.Extends s') (hd : s.Declares desired) :
    s'.isBaseMatch desired member = s.isBaseMatch desired member := by
  simp only [isBaseMatch, isSubclass_eq h hd]

end

/-- What is listed was there before or is one of the new entries. -/
theorem mem_foldl_addProperty {entries found : List (Ty × PropertyDecl)} {q : Ty × PropertyDecl}
    (h : q ∈ entries.foldl addProperty found) : q ∈ found ∨ q ∈ entries := by
  induction entries generalizing found with
  | nil => exact .inl h
  | cons e es ih =>
    rcases ih h with h | h
    · simp only [addProperty] at h
      split at h
      · exact .inl h
      · rcases List.mem_append.mp h with h | h
        · exact .inl h
        · exact .inr (by simp_all)
    · exact .inr (List.mem_cons_of_mem _ h)

/-- A public property is declared by a class of the lineage. -/
theorem mem_publicProperties {a : Ty} {p : PropertyDecl} (h : (a, p) ∈ s.publicProperties t) :
    ∃ d, (a, d) ∈ s.lineage t ∧ p ∈ d.properties ∧ p.isPublic = true := by
  rcases mem_foldl_addProperty h with h | h
  · simp at h
  · obtain ⟨⟨a', d⟩, hl, hp⟩ := List.mem_flatMap.mp h
    obtain ⟨p', hp', he⟩ := List.mem_map.mp hp
    obtain ⟨rfl, rfl⟩ := Prod.mk.inj he
    exact ⟨d, hl, (List.mem_filter.mp hp').1, (List.mem_filter.mp hp').2⟩

theorem Closed.declares_property (hs : s.Closed) {a : Ty} {p : PropertyDecl}
    (h : (a, p) ∈ s.publicProperties t) : s.Declares p.type := by
  obtain ⟨d, hl, hp, -⟩ := mem_publicProperties h
  exact (hs.covers (decl?_of_mem_lineage hl)).properties p hp

theorem Closed.declares_mapType (hs : s.Closed) {a : Ty} {p : PropertyDecl}
    (h : (a, p) ∈ s.publicProperties t) {u : Ty} (hu : u ∈ p.mapTypes) : s.Declares u := by
  obtain ⟨d, hl, hp, -⟩ := mem_publicProperties h
  exact (hs.covers (decl?_of_mem_lineage hl)).mapTypes p hp u hu

/-- A public field is one of the layout of a class of the lineage. -/
theorem mem_publicFields {i : Nat} {f : FieldDecl} (h : (i, f) ∈ s.publicFields t) :
    ∃ a d, (a, d) ∈ s.lineage t ∧ f ∈ d.layout := by
  obtain ⟨⟨a, d⟩, hl, hf⟩ := List.mem_flatMap.mp h
  refine ⟨a, d, hl, ?_⟩
  simp only [ClassDecl.ownPublicFields, List.mem_map, List.mem_filter] at hf
  obtain ⟨⟨f', j⟩, ⟨hj, -⟩, he⟩ := hf
  obtain ⟨-, rfl⟩ := Prod.mk.inj he
  exact List.fst_mem_of_mem_zipIdx (List.mem_of_mem_drop hj)

theorem Closed.declares_field (hs : s.Closed) {i : Nat} {f : FieldDecl}
    (h : (i, f) ∈ s.publicFields t) : s.Declares f.type := by
  obtain ⟨a, d, hl, hf⟩ := mem_publicFields h
  exact (hs.covers (decl?_of_mem_lineage hl)).fields f hf

/-- Picking looks at the candidates' types alone, so it only needs those to be declared. -/
theorem pick_eq {desired : Ty} (h : s.Extends s') (hd : s.Declares desired)
    {candidates : List ValueMember} (hc : ∀ m ∈ candidates, s.Declares m.type) :
    s'.pick desired candidates = s.pick desired candidates := by
  have hmatch : ∀ m ∈ candidates, s'.isMatch desired m.type = s.isMatch desired m.type :=
    fun m hm => isMatch_eq h hd (hc m hm)
  have hnamed : (candidates.find? fun m => m.name == valueName && s'.isMatch desired m.type) =
      candidates.find? fun m => m.name == valueName && s.isMatch desired m.type :=
    List.find?_congr fun m hm => by rw [hmatch m hm]
  have hany : (candidates.find? fun m => s'.isMatch desired m.type) =
      candidates.find? fun m => s.isMatch desired m.type :=
    List.find?_congr hmatch
  simp only [pick, hnamed, hany, isBaseMatch_eq h hd]

theorem valueMember?_eq {wrapper desired : Ty} (h : s.Extends s') (hs : s.Closed)
    (hw : s.Declares wrapper) (hd : s.Declares desired) :
    s'.valueMember? wrapper desired = s.valueMember? wrapper desired := by
  have hfields : s'.fieldCandidates wrapper = s.fieldCandidates wrapper := by
    simp only [fieldCandidates, publicFields_eq h hs hw]
  have hproperties : s'.propertyCandidates wrapper = s.propertyCandidates wrapper := by
    simp only [propertyCandidates, publicProperties_eq h hs hw]
  have hf : ∀ m ∈ s.fieldCandidates wrapper, s.Declares m.type := by
    intro m hm
    obtain ⟨⟨i, f⟩, hf, rfl⟩ := List.mem_map.mp hm
    exact hs.declares_field hf
  have hp : ∀ m ∈ s.propertyCandidates wrapper, s.Declares m.type := by
    intro m hm
    obtain ⟨⟨a, p⟩, hp, rfl⟩ := List.mem_map.mp hm
    exact hs.declares_property hp
  simp only [valueMember?, isClass_eq h hw, hfields, hproperties, pick_eq h hd hf, pick_eq h hd hp]

end RecordForge.Schema
