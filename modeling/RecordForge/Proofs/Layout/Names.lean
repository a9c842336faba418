import RecordForge.Proofs.Layout.Slots

/-!
# The names of fields

A draft that repeats the name of a field is refused, also if the base has the field. An implementation is
not refused: each of its fields is named for a property, and a class above may have a field of that name
(`ClassDecl.Repeats`), for one because it keeps a property of the same name itself.

So the names in a layout are distinct exactly if no implementation at or above the class repeats one, and
then fields are the same by name as by slot. Where a name is repeated it stands for the inherited field,
and the field of the property can only be reached by slot (`World.field_names_distinct`).
-/

namespace RecordForge

/-- An implementation names a field like one that it inherits. -/
def ClassDecl.Repeats (s : Schema) (t : Ty) (d : ClassDecl) : Prop :=
  d.isImplementation = true ∧
    ∃ q ∈ d.properties, ∃ f ∈ s.inherited t, f.name = backingName q.name

/-! ## Looking up fields by name -/

namespace Schema

variable {s : Schema} {t : Ty} {name : String} {i k : Nat} {f : FieldDecl}

/-- A name stands for the first field that has it. -/
theorem fieldSlot?_eq_some_iff : s.fieldSlot? t name = some i ↔
    (∃ f, (s.fields t)[i]? = some f ∧ f.name = name) ∧
      ∀ j < i, ∀ f, (s.fields t)[j]? = some f → f.name ≠ name := by
  rw [fieldSlot?, List.findIdx?_eq_some_iff_getElem]
  constructor
  · rintro ⟨hi, hname, hfirst⟩
    refine ⟨⟨_, List.getElem?_eq_getElem hi, eq_of_beq hname⟩, fun j hj f hf he => ?_⟩
    obtain ⟨hlt, rfl⟩ := List.getElem?_eq_some_iff.mp hf
    exact hfirst j hj (beq_iff_eq.mpr he)
  · rintro ⟨⟨f, hf, hname⟩, hfirst⟩
    obtain ⟨hi, rfl⟩ := List.getElem?_eq_some_iff.mp hf
    refine ⟨hi, beq_iff_eq.mpr hname, fun j hj he => ?_⟩
    exact hfirst j hj _ (List.getElem?_eq_getElem (Nat.lt_trans hj hi)) (eq_of_beq he)

/-- A field that is there is found by its name, at its slot or before. -/
theorem exists_fieldSlot? (hf : (s.fields t)[k]? = some f) :
    ∃ i, s.fieldSlot? t f.name = some i ∧ i ≤ k := by
  obtain ⟨i, hi⟩ : ∃ i, s.fieldSlot? t f.name = some i := by
    refine Option.isSome_iff_exists.mp (List.findIdx?_isSome.trans ?_)
    exact List.any_eq_true.mpr ⟨f, List.mem_of_getElem? hf, beq_self_eq_true _⟩
  refine ⟨i, hi, ?_⟩
  by_contra hlt
  exact (fieldSlot?_eq_some_iff.mp hi).2 k (by omega) f hf rfl

/-- Names that are distinct stand for one field each. -/
theorem fieldSlot?_of_nodup (h : ((s.fields t).map FieldDecl.name).Nodup)
    (hf : (s.fields t)[k]? = some f) : s.fieldSlot? t f.name = some k := by
  obtain ⟨i, hi, hle⟩ := exists_fieldSlot? hf
  obtain ⟨⟨f', hf', hname⟩, -⟩ := fieldSlot?_eq_some_iff.mp hi
  have hlt : i < ((s.fields t).map FieldDecl.name).length := by
    rw [List.length_map]
    exact (List.getElem?_eq_some_iff.mp hf').1
  have hsame : ((s.fields t).map FieldDecl.name)[i]? = ((s.fields t).map FieldDecl.name)[k]? := by
    rw [List.getElem?_map, List.getElem?_map, hf', hf]
    exact congrArg some hname
  rwa [(List.getElem?_inj hlt h).mp hsame] at hi

/-- What a name stands for in a class, it stands for in all classes below. -/
theorem Formed.fieldSlot?_below (hs : s.Formed) {a : Ty} (ha : a ∈ s.ancestors t)
    (hslot : s.fieldSlot? a name = some k) : s.fieldSlot? t name = some k := by
  obtain ⟨rest, hrest⟩ := hs.fields_prefix ha
  rw [fieldSlot?] at hslot
  rw [fieldSlot?, ← hrest, List.findIdx?_append, hslot]
  rfl

/-- A field that a draft declares is found by its name: no field in front of it has the name. -/
theorem fieldSlot?_of_drafted {c : ClassId} {d : ClassDecl} {draft : ClassDraft}
    (h : d.Drafted s c draft) (hc : s.class? c = some d) (hf : d.layout[k]? = some f)
    (hname : f.name ∈ draft.fields.map Prod.fst) : s.fieldSlot? (.cls c) f.name = some k := by
  obtain ⟨own, hadds, hnames, hnodup, hnew⟩ := h.exists_own hc
  rw [← hnames] at hname
  -- a field of the name is one of those that the draft declares
  have hindex : ∀ {i g}, d.layout[i]? = some g → g.name = f.name →
      d.ownStart ≤ i ∧ (own.map FieldDecl.name)[i - d.ownStart]? = some f.name := by
    intro i g hg hsame
    rw [hadds.layout] at hg
    rcases Nat.lt_or_ge i (s.inherited (.cls c)).length with hlt | hge
    · rw [List.getElem?_append_left hlt] at hg
      exact absurd (hsame ▸ hname) (hnew g (List.mem_of_getElem? hg))
    · rw [List.getElem?_append_right hge] at hg
      rw [hadds.start, List.getElem?_map, hg]
      exact ⟨hge, congrArg some hsame⟩
  obtain ⟨hk, hkth⟩ := hindex hf rfl
  rw [fieldSlot?_eq_some_iff, fields, show s.decl? (.cls c) = some d from hc, Option.elim_some]
  refine ⟨⟨f, hf, rfl⟩, fun j hj g hg hsame => ?_⟩
  obtain ⟨hj', hjth⟩ := hindex hg hsame
  have hlt := (List.getElem?_eq_some_iff.mp hkth).1
  have hindices := (List.getElem?_inj hlt hnodup).mp (hkth.trans hjth.symm)
  omega

end Schema

namespace World

variable {w w₀ : World} {t a : Ty} {c : ClassId} {d d' : ClassDecl} {o : ObjectId} {name : String}
variable {k : Nat}

/-- A body finds the slot that a name stands for. -/
theorem slotOf_run (hslot : w.schema.fieldSlot? (w.classOf o) name = some k) :
    Run.check (·.slotOf o name) w = (.ok k, w) := by
  have hok : w.slotOf o name = .ok k := by
    rw [slotOf, hslot]
  exact Run.check_of_ok hok

/-- What is read by name is read by slot. -/
theorem readField_eq (hslot : w.schema.fieldSlot? (w.classOf o) name = some k) :
    Run.readField o name w = Run.check (·.field o k) w := by
  rw [Run.readField, Run.bind_of_ok (slotOf_run hslot)]

/-- What is stored by name is stored by slot. -/
theorem writeField_eq (hslot : w.schema.fieldSlot? (w.classOf o) name = some k) (v : Value) :
    Run.writeField o name v w = Run.change (·.setField o k v) w := by
  rw [Run.writeField, Run.bind_of_ok (slotOf_run hslot)]

/-! ## Distinct names -/

/-- The names of a class are distinct if those that it inherits are, and it repeats none. -/
theorem Origin.nodup_iff (h : w.Origin c d) (hc : w.schema.class? c = some d) :
    (d.layout.map FieldDecl.name).Nodup ↔
      ((w.schema.inherited (.cls c)).map FieldDecl.name).Nodup ∧ ¬d.Repeats w.schema (.cls c) := by
  -- what is added has distinct names
  obtain ⟨own, hadds, hown, hrepeats⟩ : ∃ own, d.Adds w.schema c own ∧
      (own.map FieldDecl.name).Nodup ∧ (d.Repeats w.schema (.cls c) ↔
        ∃ f ∈ w.schema.inherited (.cls c), f.name ∈ own.map FieldDecl.name) := by
    cases h with
    | @drafted draft h =>
      obtain ⟨own, hadds, -, hnodup, hnew⟩ := h.exists_own hc
      refine ⟨own, hadds, hnodup, ?_, ?_⟩
      · rintro ⟨himplementation, -⟩
        rw [ClassDecl.isImplementation, h.owned_eq_none] at himplementation
        cases himplementation
      · rintro ⟨f, hf, hmem⟩
        exact absurd hmem (hnew f hf)
    | implemented hb _ hi hd =>
      obtain rfl := hd
      refine ⟨_, hi.adds hb hc, hi.nodup_names, ?_, ?_⟩
      · rintro ⟨-, q, hq, f, hf, hname⟩
        obtain ⟨p, hp, rfl⟩ := List.mem_map.mp hq
        refine ⟨f, hf, ?_⟩
        rw [List.map_map, hname]
        exact List.mem_map_of_mem (f := FieldDecl.name ∘ ForgedProperty.fieldDecl w.schema) hp
      · rintro ⟨f, hf, hmem⟩
        rw [List.map_map] at hmem
        obtain ⟨p, hp, hname⟩ := List.mem_map.mp hmem
        exact ⟨rfl, p.decl w.schema, List.mem_map_of_mem hp, f, hf, hname.symm⟩
  rw [hadds.layout, List.map_append, List.nodup_append, hrepeats]
  constructor
  · rintro ⟨hinherited, -, hdisjoint⟩
    refine ⟨hinherited, ?_⟩
    rintro ⟨f, hf, hmem⟩
    exact hdisjoint _ (List.mem_map_of_mem hf) _ hmem rfl
  · rintro ⟨hinherited, hno⟩
    refine ⟨hinherited, hown, fun x hx y hy he => ?_⟩
    obtain ⟨f, hf, rfl⟩ := List.mem_map.mp hx
    exact hno ⟨f, hf, he ▸ hy⟩

/-- So they are if no class at or above it repeats one. -/
theorem nodup_layout_iff (hw : Guards {} w) (hc : w.schema.class? c = some d) :
    (d.layout.map FieldDecl.name).Nodup ↔
      ∀ a d', (a, d') ∈ w.schema.lineage (.cls c) → ¬d'.Repeats w.schema a := by
  have hformed : w.schema.Formed := (hw.settled settled_empty).formed.schema
  -- along the bases, each list is shorter than the one before
  induction hlen : d.bases.length generalizing c d with
  | zero =>
    have hroot : d.bases = [] := List.length_eq_zero_iff.mp hlen
    have hlineage : w.schema.lineage (.cls c) = [(.cls c, d)] := by
      have hdecl : w.schema.decl? (.cls c) = some d := hc
      simp [Schema.lineage, Schema.ancestors, Schema.bases, hdecl, hroot]
    rw [(hw.origin hc).nodup_iff hc, Schema.inherited_of_root hc hroot, hlineage]
    simp
  | succ n ih =>
    rcases hformed.lineage hc with hroot | ⟨b, d', hb, hbases, -, -⟩
    · rw [hroot] at hlen
      cases hlen
    · have hshorter : d'.bases.length = n := by
        rw [hbases, List.length_cons] at hlen
        omega
      have habove := ih hb hshorter
      rw [(hw.origin hc).nodup_iff hc, Schema.inherited_of_base hc hbases hb,
        Schema.lineage_of_bases hc hb hbases]
      constructor
      · rintro ⟨hbase, hself⟩ a d'' hmem
        rcases List.mem_cons.mp hmem with he | hmem
        · obtain ⟨rfl, rfl⟩ := Prod.mk.inj he
          exact hself
        · exact habove.mp hbase a d'' hmem
      · intro hall
        exact ⟨habove.mpr fun a d'' hmem => hall a d'' (List.mem_cons_of_mem _ hmem),
          hall _ _ List.mem_cons_self⟩

/-- **The field of a property** is found by its name unless a field that is inherited has the name, which
is found then. -/
theorem fieldSlot?_of_implementation (hw : Guards {} w) {n : ClassId} {q : PropertyDecl} {g : Getter}
    (hn : w.schema.class? n = some d') (habove : .cls n ∈ w.schema.ancestors t)
    (hd' : d'.isImplementation = true) (hq : q ∈ d'.properties) (hg : q.getter = some (.body g))
    (hk : g.slot? = some k) : ∃ i, w.schema.fieldSlot? t (backingName q.name) = some i ∧
      (i = k ↔ ∀ f ∈ w.schema.inherited (.cls n), f.name ≠ backingName q.name) ∧
      (i ≠ k → ∃ f ∈ w.schema.inherited (.cls n), (w.schema.fields t)[i]? = some f) := by
  have hformed : w.schema.Formed := (hw.settled settled_empty).formed.schema
  obtain ⟨b, impl, v, cache, hb, ha, himpl, rfl⟩ := (hw.origin hn).exists_implementation hd'
  obtain ⟨p, hp, rfl⟩ := List.mem_map.mp hq
  obtain rfl := Accessor.body.inj (Option.some.inj hg)
  have hslot := Implementation.Realizes.slot?_getter (S := w.schema) p.field
  obtain rfl := Option.some.inj (hslot.symm.trans hk)
  have hadds := himpl.adds hb hn
  have hfields : w.schema.fields (.cls n) = w.schema.inherited (.cls n) ++
      impl.properties.map (ForgedProperty.fieldDecl w.schema) := by
    rw [Schema.fields, show w.schema.decl? (.cls n) = some _ from hn, Option.elim_some, hadds.layout]
  obtain ⟨hown, hlayout⟩ := himpl.layout_slot hp
  rw [hadds.start] at hown
  rw [hadds.layout, ← hfields] at hlayout
  -- the first field of the name is that of the property, or comes before it
  obtain ⟨i, hi, hle⟩ := Schema.exists_fieldSlot? (hformed.getElem?_fields habove hlayout)
  obtain ⟨⟨f, hf, hname⟩, hfirst⟩ := Schema.fieldSlot?_eq_some_iff.mp hi
  refine ⟨i, hi, ?_⟩
  have hlt : i < (w.schema.fields (.cls n)).length :=
    Nat.lt_of_le_of_lt hle (List.getElem?_eq_some_iff.mp hlayout).1
  obtain ⟨f', hf'⟩ : ∃ f', (w.schema.fields (.cls n))[i]? = some f' :=
    ⟨_, List.getElem?_eq_getElem hlt⟩
  obtain rfl : f' = f := Option.some.inj ((hformed.getElem?_fields habove hf').symm.trans hf)
  by_cases hinherited : i < (w.schema.inherited (.cls n)).length
  · have hmem : f' ∈ w.schema.inherited (.cls n) := by
      rw [hfields, List.getElem?_append_left hinherited] at hf'
      exact List.mem_of_getElem? hf'
    refine ⟨⟨fun he => ?_, fun hno => absurd hname (hno f' hmem)⟩, fun _ => ⟨f', hmem, hf⟩⟩
    omega
  · have hsame : i = p.field.slot := by
      rw [hfields, List.getElem?_append_right (by omega)] at hf' hlayout
      have hnames := congrArg (Option.map FieldDecl.name) hf'
      have hnames' := congrArg (Option.map FieldDecl.name) hlayout
      rw [← List.getElem?_map] at hnames hnames'
      have hlength := (List.getElem?_eq_some_iff.mp hnames).1
      have hindex := (List.getElem?_inj hlength himpl.nodup_names).mp
        (hnames.trans ((congrArg some hname).trans hnames'.symm))
      omega
    refine ⟨⟨fun _ x hx hxname => ?_, fun _ => hsame⟩, fun hne => absurd hsame hne⟩
    obtain ⟨j, hj⟩ := List.mem_iff_getElem?.mp hx
    have hjlt : j < (w.schema.inherited (.cls n)).length := (List.getElem?_eq_some_iff.mp hj).1
    refine hfirst j (by omega) x (hformed.getElem?_fields habove ?_) hxname
    rw [hfields, List.getElem?_append_left hjlt]
    exact hj

/-- **The names of fields** are distinct exactly if no implementation at or above the class names the field
of a property like a field that it inherits. Where they are distinct, a field is the same by name and by
slot. In any case the name of the field of a property stands for that field exactly if no inherited
field has it, and else for one that is inherited. -/
theorem field_names_distinct (hw : w₀.Reached) (hguards : w₀.Guards w)
    (ht : w.schema.decl? t = some d) :
    ((d.layout.map FieldDecl.name).Nodup ↔
      ∀ a d', (a, d') ∈ w.schema.lineage t → ¬d'.Repeats w.schema a) ∧
    ((d.layout.map FieldDecl.name).Nodup → ∀ {i f}, d.layout[i]? = some f →
      w.schema.fieldSlot? t f.name = some i ∧ ∀ {o}, w.classOf o = t →
        Run.readField o f.name w = Run.check (·.field o i) w ∧
          ∀ v, Run.writeField o f.name v w = Run.change (·.setField o i v) w) ∧
    ∀ {a d' q g k}, (a, d') ∈ w.schema.lineage t → d'.isImplementation = true →
      q ∈ d'.properties → q.getter = some (.body g) → g.slot? = some k →
        ∃ i, w.schema.fieldSlot? t (backingName q.name) = some i ∧
          (i = k ↔ ∀ f ∈ w.schema.inherited a, f.name ≠ backingName q.name) ∧
          (i ≠ k → ∃ f ∈ w.schema.inherited a, d.layout[i]? = some f) := by
  have hempty : Guards {} w := hw.guards.trans hguards
  have hformed : w.schema.Formed := (hempty.settled settled_empty).formed.schema
  obtain ⟨c, rfl, -⟩ := Schema.lt_size_of_decl? ht
  have hfields : w.schema.fields (.cls c) = d.layout := by
    rw [Schema.fields, ht, Option.elim_some]
  refine ⟨nodup_layout_iff hempty ht, fun hnodup {i f} hf => ?_, ?_⟩
  · have hslot : w.schema.fieldSlot? (.cls c) f.name = some i :=
      Schema.fieldSlot?_of_nodup (hfields ▸ hnodup) (hfields ▸ hf)
    refine ⟨hslot, fun {o} ho => ?_⟩
    rw [← ho] at hslot
    exact ⟨readField_eq hslot, writeField_eq hslot⟩
  · intro a d' q g k hmem hd' hq hg hk
    have hn := Schema.decl?_of_mem_lineage hmem
    obtain ⟨n, rfl, -⟩ := Schema.lt_size_of_decl? hn
    rw [← hfields]
    exact fieldSlot?_of_implementation hempty hn (Schema.mem_ancestors_of_mem_lineage hmem) hd' hq hg hk

end World

namespace Scene

/-- The label of a case is found by name where the chest keeps it, not in the slot that is read for it. In a
chest it is the same by name and by slot. -/
theorem field_names_distinct_attic :
    (∃ i, attic.schema.fieldSlot? (.cls 3) "_Label" = some i ∧ i ≠ 1) ∧
      attic.schema.fieldSlot? (.cls 0) "_Label" = some 0 := by
  obtain ⟨-, -, hcase⟩ := World.field_names_distinct (t := .cls 3) attic_reached (.refl _) rfl
  obtain ⟨-, hchest, -⟩ := World.field_names_distinct (t := .cls 0) attic_reached (.refl _) rfl
  obtain ⟨i, hi, hiff, -⟩ := hcase (a := .cls 2) (q := _) (List.mem_cons_of_mem _ List.mem_cons_self) rfl
    List.mem_cons_self rfl (k := 1) rfl
  refine ⟨⟨i, hi, fun he => ?_⟩, ?_⟩
  · exact hiff.mp he _ List.mem_cons_self rfl
  · exact (hchest (by decide +kernel) (i := 0) rfl).1

/-- The implementation of `Attic.Trunk` has two fields of one name. A case that is given a label by the name
of the field goes on to read as it did. -/
theorem attic_label_repeated :
    ¬((attic.schema.fields (.cls 2)).map FieldDecl.name).Nodup ∧
      attic.isInstance 0 (.cls 2) = true ∧
      ∃ w, Run.writeField 0 "_Label" (.scalar (.integer (.ofInt32 7))) attic = (.ok (), w) ∧
        Run.readField 0 "_Label" w = (.ok (.scalar (.integer (.ofInt32 7))), w) ∧
        Run.getProperty 8 0 "Label" w = (.ok (.scalar (.integer (.ofInt32 0))), w) :=
  ⟨by decide +kernel, by decide +kernel, _, rfl, rfl, rfl⟩

end Scene

end RecordForge
