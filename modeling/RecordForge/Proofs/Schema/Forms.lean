import RecordForge.Proofs.Construction.Plans
import RecordForge.Proofs.Heap.Forms

/-!
# Fields and bases

A class begins with the fields of its base, which is shared by reference. So the slot of a field is the
same in all classes below (`Schema.Formed.exists_of_mem_bases`), and a class of objects that are held by
value has no classes below it (`Schema.Formed.classOf_eq`). An object has as many fields as its class.
-/

namespace RecordForge

/-- The shape of the objects of a class. -/
def Schema.Forms (s : Schema) (shape : Shape) : Prop :=
  ∃ d, s.class? shape.cls = some d ∧ shape.byValue = d.isValueType ∧ shape.size = d.layout.length

/-- A class begins with what its base has. -/
def ClassDecl.Continues (s : Schema) (d : ClassDecl) : Prop :=
  d.bases = [] ∨ ∃ b d', s.class? b = some d' ∧ d.bases = b :: d'.bases ∧ d'.isValueType = false ∧
    d'.layout <+: d.layout

/-- Each class begins with what its base has, and its blanks are of the shapes that their classes say. -/
structure Schema.Formed (s : Schema) : Prop where
  blanks : ∀ {c d}, s.class? c = some d → ∀ f ∈ d.layout, f.blank.Formed s.Forms
  lineage : ∀ {c d}, s.class? c = some d → d.Continues s

theorem Blank.Formed.imp {C D : Shape → Prop} (h : ∀ shape, C shape → D shape) {b : Blank}
    (hb : b.Formed C) : b.Formed D := by
  induction hb with
  | null => exact .null
  | scalar s => exact .scalar s
  | record hc _ ih => exact .record (h _ hc) ih

theorem ClassDecl.Continues.mono {s s' : Schema} {d : ClassDecl} (h : d.Continues s)
    (he : s.Extends s') : d.Continues s' := by
  rcases h with hroot | ⟨b, d', hb, hrest⟩
  · exact .inl hroot
  · exact .inr ⟨b, d', he.classes hb, hrest⟩

/-- Objects of the shapes of classes are instances of declared classes. -/
theorem Heap.Formed.within {h : Heap} {s : Schema} (hf : h.Formed s.Forms) : h.Within s := by
  intro o i ho
  obtain ⟨d, hd, -⟩ := hf o i ho
  exact Option.isSome_iff_exists.mpr ⟨d, hd⟩

namespace Schema

variable {s s' : Schema} {c n : ClassId} {d d' : ClassDecl} {t : Ty}

theorem Forms.mono {shape : Shape} (h : s.Forms shape) (he : s.Extends s') : s'.Forms shape := by
  obtain ⟨d, hd, hrest⟩ := h
  exact ⟨d, he.classes hd, hrest⟩

/-! ## Where fields come from -/

/-- What a field of a type holds at first. -/
theorem blank_cases (s : Schema) (t : Ty) : s.blank t = .null ∨ (∃ x, s.blank t = .scalar x) ∨
    ∃ c d, s.class? c = some d ∧ d.isValueType = true ∧
      s.blank t = .record c (d.layout.map FieldDecl.blank) := by
  have helim : ∀ x : Option Scalar, (x.elim .null .scalar : Blank) = .null ∨
      ∃ y, (x.elim .null .scalar : Blank) = .scalar y := by
    intro x
    cases x with
    | none => exact .inl rfl
    | some y => exact .inr ⟨y, rfl⟩
  cases t with
  | any => exact .inl rfl
  | carrier => exact .inl rfl
  | scalar k => exact (helim k.zero?).imp_right .inl
  | enum e =>
    rw [Schema.blank]
    cases s.underlying? (.enum e) with
    | none => exact .inl rfl
    | some k => exact (helim k.zero?).imp_right .inl
  | cls c =>
    rw [Schema.blank]
    cases hd : s.class? c with
    | none => exact .inl rfl
    | some d =>
      dsimp only
      split
      · next hv => exact .inr (.inr ⟨c, d, hd, hv, rfl⟩)
      · exact .inl rfl

/-- A field is drawn from a schema: a class has it, or it holds at first what its type says. -/
def Draws (s : Schema) (f : FieldDecl) : Prop :=
  (∃ c d, s.class? c = some d ∧ f ∈ d.layout) ∨ ∃ t, f.blank = s.blank t

/-- The fields of a class that is declared are those of its base, and its own. -/
theorem draws_finish (s : Schema) (draft : ClassDraft) : ∀ f ∈ (s.finish draft).layout, s.Draws f := by
  intro f hf
  rcases List.mem_append.mp hf with hf | hf
  · cases hbase : draft.base.bind s.decl? with
    | none => simp [hbase] at hf
    | some d' =>
      rw [hbase] at hf
      obtain ⟨t, -, ht⟩ := Option.bind_eq_some_iff.mp hbase
      obtain ⟨b, rfl, -⟩ := lt_size_of_decl? ht
      exact .inl ⟨b, d', ht, hf⟩
  · obtain ⟨x, -, rfl⟩ := List.mem_map.mp hf
    exact .inr ⟨x.2.1, rfl⟩

/-- So are those of an implementation. -/
theorem draws_implementation {i : Implementation} {b : ClassId} (hb : s.class? b = some i.base) :
    ∀ f ∈ (i.decl s).layout, s.Draws f := by
  intro f hf
  rcases List.mem_append.mp hf with hf | hf
  · exact .inl ⟨b, i.base, hb, hf⟩
  · obtain ⟨x, -, rfl⟩ := List.mem_map.mp hf
    exact .inr ⟨x.field.fieldType, rfl⟩

namespace Formed

theorem blank (hs : s.Formed) (t : Ty) : (s.blank t).Formed s.Forms := by
  rcases blank_cases s t with hnull | ⟨x, hscalar⟩ | ⟨c, d, hd, hv, hrecord⟩
  · exact hnull ▸ .null
  · exact hscalar ▸ .scalar x
  · rw [hrecord]
    refine .record ⟨d, hd, hv.symm, List.length_map _⟩ fun b hb => ?_
    obtain ⟨f, hf, rfl⟩ := List.mem_map.mp hb
    exact hs.blanks hd f hf

/-- So has each field that is drawn from the schema. -/
theorem drawn (hs : s.Formed) {f : FieldDecl} (hf : s.Draws f) : f.blank.Formed s.Forms := by
  rcases hf with ⟨c, d, hd, hf⟩ | ⟨t, ht⟩
  · exact hs.blanks hd f hf
  · exact ht ▸ hs.blank t

/-- What was declared before stays as it is, so it remains to look at what is new. -/
theorem extend (hs : s.Formed) (he : s.Extends s')
    (hnew : ∀ {c d}, s'.class? c = some d → s.class? c = some d ∨
      (∀ f ∈ d.layout, f.blank.Formed s.Forms) ∧ d.Continues s) : s'.Formed := by
  refine ⟨fun hc f hf => ?_, fun hc => ?_⟩
  · rcases hnew hc with hold | ⟨hblanks, -⟩
    · exact (hs.blanks hold f hf).imp fun _ h => h.mono he
    · exact (hblanks f hf).imp fun _ h => h.mono he
  · rcases hnew hc with hold | ⟨-, hcontinues⟩
    · exact (hs.lineage hold).mono he
    · exact hcontinues.mono he

theorem addEnum (hs : s.Formed) (e : EnumDecl) : (s.addEnum e).2.Formed :=
  hs.extend (extends_addEnum s e) .inl

/-- A class that is declared begins with what the base has that its draft names. -/
theorem continues_finish {draft : ClassDraft} (h : s.offence? draft = none) :
    (s.finish draft).Continues s := by
  cases hbase : draft.base with
  | none => exact .inl (by simp [finish, hbase])
  | some t =>
    obtain ⟨b, d', rfl, -, hd', hreference⟩ := base_of_offence? h hbase
    have hbases : (s.finish draft).bases = b :: d'.bases := by simp [finish, hbase, hd']
    refine .inr ⟨b, d', hd', hbases, hreference, ?_⟩
    have hbegin : (draft.base.bind s.decl?).elim [] ClassDecl.layout = d'.layout := by
      rw [hbase, Option.bind_some, show s.decl? (.cls b) = some d' from hd']
      rfl
    exact hbegin ▸ List.prefix_append ..

theorem declare (hs : s.Formed) {draft : ClassDraft} (h : s.declare draft = .ok (c, s')) :
    s'.Formed := by
  obtain ⟨hoffence, hadd⟩ := declare_eq_ok_iff.mp h
  obtain rfl : (s.addClass (s.finish draft)).2 = s' := congrArg Prod.snd hadd
  refine hs.extend (extends_addClass s _) fun {c d} hc => ?_
  rcases class?_addClass_eq_some hc with ⟨-, rfl⟩ | hold
  · exact .inr ⟨fun f hf => hs.drawn (draws_finish s draft f hf), continues_finish hoffence⟩
  · exact .inl hold

/-- The implementation of an abstract class begins with the fields of that. -/
theorem implementation (hs : s.Formed) (hproper : s.Proper) {i : Implementation} {b : ClassId}
    (htype : i.type = .cls b) (hb : s.class? b = some i.base) (ha : i.base.isAbstract = true) :
    (∀ f ∈ (i.decl s).layout, f.blank.Formed s.Forms) ∧ (i.decl s).Continues s := by
  exact ⟨fun f hf => hs.drawn (draws_implementation hb f hf), .inr ⟨b, i.base, hb,
    Implementation.bases_decl htype hb, hproper.references hb ha, List.prefix_append ..⟩⟩

/-! ## Classes and their bases -/

/-- What has bases is a class, and so are these. -/
theorem classes_of_mem_bases {u : Ty} (h : u ∈ s.bases t) :
    ∃ c d n, t = .cls c ∧ s.class? c = some d ∧ u = .cls n ∧ n ∈ d.bases := by
  rw [bases] at h
  cases ht : s.decl? t with
  | none => simp [ht] at h
  | some d =>
    rw [ht] at h
    obtain ⟨c, rfl, -⟩ := lt_size_of_decl? ht
    obtain ⟨n, hn, rfl⟩ := List.mem_map.mp h
    exact ⟨c, d, n, rfl, ht, rfl, hn⟩

/-- A base is shared by reference, its fields come first, and its own bases follow it. -/
theorem exists_of_mem_bases (hs : s.Formed) (hc : s.class? c = some d) (hn : n ∈ d.bases) :
    ∃ d', s.class? n = some d' ∧ d'.isValueType = false ∧ d'.layout <+: d.layout ∧
      n :: d'.bases <:+ d.bases := by
  -- along the bases, each list is shorter than the one before
  induction hlen : d.bases.length generalizing c d with
  | zero =>
    rw [List.length_eq_zero_iff.mp hlen] at hn
    cases hn
  | succ m ih =>
    rcases hs.lineage hc with hroot | ⟨b, d', hb, hbases, hreference, hlayout⟩
    · rw [hroot] at hn
      cases hn
    · rw [hbases] at hn
      rcases List.mem_cons.mp hn with rfl | hn
      · exact ⟨d', hb, hreference, hlayout, hbases ▸ List.suffix_rfl⟩
      · have hshorter : d'.bases.length = m := by
          rw [hbases, List.length_cons] at hlen
          omega
        obtain ⟨d'', hd'', hreference', hlayout', hsuffix⟩ := ih hb hn hshorter
        refine ⟨d'', hd'', hreference', hlayout'.trans hlayout, hsuffix.trans ?_⟩
        exact hbases ▸ List.suffix_cons ..

/-- The bases of a base follow it among the bases. -/
theorem bases_suffix (hs : s.Formed) {u : Ty} (h : u ∈ s.bases t) : u :: s.bases u <:+ s.bases t := by
  obtain ⟨c, d, n, rfl, hc, rfl, hn⟩ := classes_of_mem_bases h
  obtain ⟨d', hd', -, -, hsuffix⟩ := hs.exists_of_mem_bases hc hn
  rw [bases, bases, show s.decl? (.cls c) = some d from hc, show s.decl? (.cls n) = some d' from hd']
  exact hsuffix.map Ty.cls

/-- What is above a base is above the class. -/
theorem ancestors_subset (hs : s.Formed) {u : Ty} (h : u ∈ s.ancestors t) :
    s.ancestors u ⊆ s.ancestors t := by
  rcases List.mem_cons.mp h with rfl | hbase
  · exact fun _ hv => hv
  · exact fun _ hv => List.mem_cons_of_mem _ ((hs.bases_suffix hbase).subset hv)

end Formed

/-- What stands for a type is the type or one below it, and for the root all that there is. -/
theorem isAssignable_iff {u : Ty} : s.isAssignable t u = true ↔ u = .any ∨ u ∈ s.ancestors t := by
  rw [isAssignable, Bool.or_eq_true, beq_iff_eq, isSubclass, ancestors, List.mem_cons]
  by_cases hany : u = .any
  · subst hany
    simp [eq_or_ne]
  · rw [if_neg hany, List.contains_iff_mem]
    simp [hany, eq_comm]

theorem isAssignable_of_mem_ancestors {u : Ty} (h : u ∈ s.ancestors t) : s.isAssignable t u = true :=
  isAssignable_iff.mpr (.inr h)

namespace Formed

/-- What stands for a type stands for what that stands for. -/
theorem isAssignable_trans (hs : s.Formed) {u v : Ty} (htu : s.isAssignable t u = true)
    (huv : s.isAssignable u v = true) : s.isAssignable t v = true := by
  rcases isAssignable_iff.mp huv with rfl | hv
  · exact isAssignable_iff.mpr (.inl rfl)
  · rcases isAssignable_iff.mp htu with rfl | hu
    · -- nothing is above the root
      exact isAssignable_iff.mpr (.inl (List.mem_singleton.mp hv))
    · exact isAssignable_of_mem_ancestors (hs.ancestors_subset hu hv)

/-- Nothing else can stand where objects are held by value. -/
theorem eq_of_isAssignable (hs : s.Formed) (hn : s.class? n = some d) (hv : d.isValueType = true)
    (h : s.isAssignable t (.cls n) = true) : t = .cls n := by
  rcases isAssignable_iff.mp h with h | h
  · cases h
  rcases List.mem_cons.mp h with h | h
  · exact h.symm
  · obtain ⟨c, d', n', rfl, hc, he, hmem⟩ := classes_of_mem_bases h
    obtain rfl := Ty.cls.inj he
    obtain ⟨d'', hd'', hreference, -⟩ := hs.exists_of_mem_bases hc hmem
    obtain rfl := Option.some.inj (hn.symm.trans hd'')
    rw [hv] at hreference
    cases hreference

end Formed

/-! ## What new objects hold -/

/-- The face of a new object of a class: its fields are blank. -/
def Models (s : Schema) (face : Face) : Prop :=
  ∃ d, s.class? face.cls = some d ∧ face.fields = d.layout.map fun f => f.blank.face

/-- The blanks of each class are those that their classes say. -/
def Modelled (s : Schema) : Prop :=
  ∀ c d, s.class? c = some d → ∀ f ∈ d.layout, f.blank.Shows s.Models

theorem Models.mono {face : Face} (h : s.Models face) (he : s.Extends s') : s'.Models face := by
  obtain ⟨d, hd, hfields⟩ := h
  exact ⟨d, he.classes hd, hfields⟩

theorem models_blank (hc : s.class? c = some d) (byValue : Bool) :
    s.Models ⟨c, byValue, (d.layout.map FieldDecl.blank).map Blank.face⟩ :=
  ⟨d, hc, List.map_map⟩

namespace Modelled

theorem layout (hs : s.Modelled) (hc : s.class? c = some d) :
    ∀ b ∈ d.layout.map FieldDecl.blank, b.Shows s.Models := by
  intro b hb
  obtain ⟨f, hf, rfl⟩ := List.mem_map.mp hb
  exact hs c d hc f hf

theorem blank (hs : s.Modelled) (t : Ty) : (s.blank t).Shows s.Models := by
  rcases blank_cases s t with hnull | ⟨x, hscalar⟩ | ⟨c, d, hd, -, hrecord⟩
  · exact hnull ▸ .null
  · exact hscalar ▸ .scalar x
  · rw [hrecord]
    exact .record (models_blank hd true) (hs.layout hd)

/-- It is enough that the fields of new classes are drawn from the schema. -/
theorem extend (hs : s.Modelled) (he : s.Extends s')
    (hnew : ∀ {c d}, s'.class? c = some d → s.class? c = some d ∨ ∀ f ∈ d.layout, s.Draws f) :
    s'.Modelled := by
  intro c d hc f hf
  have hshows : f.blank.Shows s.Models := by
    rcases hnew hc with hold | hdraws
    · exact hs c d hold f hf
    · rcases hdraws f hf with ⟨c₀, d₀, hd₀, hf₀⟩ | ⟨t, ht⟩
      · exact hs c₀ d₀ hd₀ f hf₀
      · exact ht ▸ hs.blank t
  exact hshows.imp fun _ h => h.mono he

theorem addEnum (hs : s.Modelled) (e : EnumDecl) : (s.addEnum e).2.Modelled :=
  hs.extend (extends_addEnum s e) .inl

theorem declare (hs : s.Modelled) {draft : ClassDraft} (h : s.declare draft = .ok (c, s')) :
    s'.Modelled := by
  obtain ⟨-, hadd⟩ := declare_eq_ok_iff.mp h
  obtain rfl : (s.addClass (s.finish draft)).2 = s' := congrArg Prod.snd hadd
  refine hs.extend (extends_addClass s _) fun {c d} hc => ?_
  rcases class?_addClass_eq_some hc with ⟨-, rfl⟩ | hold
  · exact .inr (draws_finish s draft)
  · exact .inl hold

end Modelled

end Schema

end RecordForge
