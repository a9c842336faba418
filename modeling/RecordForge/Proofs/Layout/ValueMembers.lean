import RecordForge.Proofs.Layout.Names
import RecordForge.Proofs.Schema.Ranking

/-!
# The member that holds the value of a wrapper

Which member of a wrapper holds its value is decided when a property is mapped to the wrapper, and the
member is used on all instances of the wrapper and of the classes below it. It is the least ranked of the
public members (`Schema.Ranked`). If it is a field, then its name stands for its slot in each class at or
below the wrapper: only implementations repeat names, and their fields are not public. So what is written
through the member is what is read through it afterwards (`World.value_member_ranked`).
-/

namespace RecordForge

namespace World

variable {w w₀ w₁ : World} {wrapper desired t : Ty} {o : ObjectId} {k : Nat} {f : FieldDecl}
variable {m : ValueMember} {v : Value}

/-- A class with public fields of its own comes from a draft. -/
theorem Origin.drafted_of_public {c : ClassId} {d : ClassDecl} (h : w.Origin c d)
    (hc : w.schema.class? c = some d) (hf : d.layout[k]? = some f) (hown : d.ownStart ≤ k)
    (hpublic : f.isPublic = true) : ∃ draft, d.Drafted w.schema c draft := by
  cases h with
  | drafted h => exact ⟨_, h⟩
  | implemented hb _ hi hd =>
    obtain rfl := hd
    have hadds := hi.adds hb hc
    rw [hadds.layout, List.getElem?_append_right (hadds.start ▸ hown)] at hf
    obtain ⟨p, -, rfl⟩ := List.mem_map.mp (List.mem_of_getElem? hf)
    cases hpublic

/-- The name of a public field of a class stands for it in all classes below. -/
theorem fieldSlot?_of_public (hw : Guards {} w) (hf : (k, f) ∈ w.schema.publicFields wrapper)
    (hbelow : wrapper ∈ w.schema.ancestors t) : w.schema.fieldSlot? t f.name = some k := by
  have hformed : w.schema.Formed := (hw.settled settled_empty).formed.schema
  obtain ⟨⟨a, d⟩, hl, hown⟩ := List.mem_flatMap.mp hf
  have ha := Schema.decl?_of_mem_lineage hl
  obtain ⟨c, rfl, -⟩ := Schema.lt_size_of_decl? ha
  obtain ⟨_, j, -, hlayout, rfl, hpublic⟩ := (Schema.lists_ownPublicFields d).mem_iff.mp hown
  have hbelow' : .cls c ∈ w.schema.ancestors t :=
    hformed.ancestors_subset hbelow (Schema.mem_ancestors_of_mem_lineage hl)
  -- the class that declares the field comes from a draft
  obtain ⟨draft, hd⟩ := (hw.origin ha).drafted_of_public ha hlayout (Nat.le_add_right ..) hpublic
  obtain ⟨own, hnames, hadds⟩ := hd.adds ha
  refine hformed.fieldSlot?_below hbelow' (Schema.fieldSlot?_of_drafted hd ha hlayout ?_)
  rw [hadds.layout, hadds.start, List.getElem?_append_right (Nat.le_add_right ..),
    Nat.add_sub_cancel_left] at hlayout
  rw [← hnames, List.map_map]
  exact List.mem_map_of_mem (f := FieldDecl.name) (List.mem_of_getElem? hlayout)

/-! ## Access through the member -/

/-- What is written to a field of an object through a value member is read through it afterwards. -/
theorem read_written (ht : w.heap.Tidy) (hv : v.Known w.heap) (hk : m.place = .field k)
    (hslot : ∃ x, w.setField o k v = .ok x) (c : Calls) :
    ∃ w' u, m.write c (.object o) v w = (.ok (), w') ∧ m.read c (.object o) w' = (.ok u, w') ∧
      w.heap.Alike w'.heap v u := by
  obtain ⟨w', hw'⟩ := hslot
  obtain ⟨heap, hstore, rfl⟩ := setField_eq_ok_iff.mp hw'
  obtain ⟨-, u, hu, hsame⟩ := Heap.store_spec ht hv hstore
  refine ⟨{ w with heap }, u, ?_, ?_, hsame⟩
  · rw [ValueMember.write, Run.bind_of_ok (show m.holder (.object o) w = (.ok o, w) from rfl), hk]
    exact Run.change_of_ok hw'
  · rw [ValueMember.read, Run.bind_of_ok (show m.holder (.object o) _ = (.ok o, _) from rfl), hk]
    exact Run.check_of_ok (field_eq_ok_iff.mpr hu)

/-- **The value member of a wrapper** is the least of its public members that are ranked, and there is none
exactly if no member is ranked. If it is a field, then in each world that comes about later its slot holds
that field, by slot and by name, in all instances of the wrapper and of classes below. What is written
through the member is read through it afterwards. -/
theorem value_member_ranked (hw : w₀.Reached) (hlater : w₀.Later w₁) (hguards : w₁.Guards w) :
    (∀ {wrapper desired m}, w₀.schema.valueMember? wrapper desired = some m ↔
      ∃ rank, w₀.schema.Ranked wrapper desired rank m ∧
        ∀ rank' m', w₀.schema.Ranked wrapper desired rank' m' → rank ≤ rank') ∧
    (∀ {wrapper desired}, w₀.schema.valueMember? wrapper desired = none ↔
      ∀ rank m, ¬w₀.schema.Ranked wrapper desired rank m) ∧
    ∀ {wrapper desired m k}, w₀.schema.valueMember? wrapper desired = some m → m.place = .field k →
      ∃ f, f.name = m.name ∧ f.type = m.type ∧
        ∀ {o}, w.isInstance o wrapper = true →
          (w.schema.fields (w.classOf o))[k]? = some f ∧
          w.schema.fieldSlot? (w.classOf o) m.name = some k ∧
          ∀ {v}, v.Known w.heap → ∀ c, ∃ w' u, m.write c (.object o) v w = (.ok (), w') ∧
            m.read c (.object o) w' = (.ok u, w') ∧ w.heap.Alike w'.heap v u := by
  refine ⟨Schema.valueMember?_eq_some_iff, Schema.valueMember?_eq_none_iff, ?_⟩
  intro wrapper desired m k hm hk
  have hlate := (Later.guards hw.settled hlater).trans hguards
  have hempty : Guards {} w := hw.guards.trans hlate
  have hsettled := hempty.settled settled_empty
  obtain ⟨f, hf, hname, htype⟩ := Schema.publicField_of_valueMember? hm hk
  -- the wrapper is a declared class, so its public fields are the same later
  have hclass : w₀.schema.isClass wrapper = true := by
    by_contra hno
    rw [Schema.valueMember?, if_neg hno] at hm
    cases hm
  obtain ⟨d, hd⟩ := Option.isSome_iff_exists.mp hclass
  obtain ⟨c, rfl, -⟩ := Schema.lt_size_of_decl? hd
  have hlater : (k, f) ∈ w.schema.publicFields (.cls c) :=
    (Schema.publicFields_eq hlate.schema hw.settled.sound.proper.closed
      (Schema.declares_of_decl? hd)).symm ▸ hf
  refine ⟨f, hname, htype, fun {o} ho => ?_⟩
  have hbelow := Schema.mem_ancestors_of_isAssignable ho
  have hfield : (w.schema.fields (w.classOf o))[k]? = some f :=
    hsettled.formed.schema.getElem?_fields hbelow
      (hsettled.formed.schema.getElem?_of_publicFields hlater)
  obtain ⟨i, hi, hslot⟩ := hsettled.formed.hasSlots (lt_size_of_isInstance ho)
    (t := w.classOf o) (by simp [isInstance, Schema.isAssignable])
    (List.getElem?_eq_some_iff.mp hfield).1
  refine ⟨hfield, hname ▸ fieldSlot?_of_public hempty hlater hbelow, fun {v} hv => ?_⟩
  have hstore : w.heap.store o k v = some ((w.heap.assign v).2.put o k (w.heap.assign v).1) :=
    Heap.store_eq_some_iff.mpr ⟨i, hi, hslot, rfl⟩
  exact read_written hsettled.tidy.heap hv hk ⟨_, setField_eq_ok_iff.mpr ⟨_, hstore, rfl⟩⟩

end World

namespace Scene

/-- Drafts of a class with the number of what is in it and its value, of a class below that has a level, and
of one below that. -/
def pantryDrafts : List ClassDraft :=
  let number : Ty := .scalar (.integer .i32)
  [{ name := "Pantry.Jar"
     members := [.field "Count" number true, .field "Value" number true, .defaultConstructor] },
   { name := "Pantry.Jug", base := some (.cls 0)
     members := [.field "Level" number true, .defaultConstructor] },
   { name := "Pantry.Pitcher", base := some (.cls 1)
     members := [.field "Handle" .any true, .defaultConstructor] }]

/-- The world in which the classes have been declared. -/
def pantry : World := { schema := addDrafts {} pantryDrafts }

/-- There is a pitcher. -/
def pantryPitcher : World := ((Deed.construct (.cls 2) 0 []).run 4 pantry).2

theorem pantry_reached : pantry.Reached :=
  declare_reached .refl (by decide +kernel) (by decide +kernel)

/-- A jug is a wrapper of the value of a jar, though its level is nearer. The value of a pitcher is written
and read as that of a jug. -/
theorem value_member_ranked_pantry :
    pantry.schema.valueMember? (.cls 1) (.scalar (.integer .i32)) =
      some ⟨"Value", .scalar (.integer .i32), .field 1⟩ ∧
    pantry.schema.Ranked (.cls 1) (.scalar (.integer .i32)) [0, 1, 1, 1]
      ⟨"Value", .scalar (.integer .i32), .field 1⟩ ∧
    pantry.schema.Ranked (.cls 1) (.scalar (.integer .i32)) [0, 2, 0, 0]
      ⟨"Level", .scalar (.integer .i32), .field 2⟩ ∧
    pantryPitcher.schema.fieldSlot? (pantryPitcher.classOf 0) "Value" = some 1 := by
  have hmember : pantry.schema.valueMember? (.cls 1) (.scalar (.integer .i32)) =
      some ⟨"Value", .scalar (.integer .i32), .field 1⟩ := by decide +kernel
  have hlater : pantry.Later pantryPitcher := .single (.deed 4 fun _ hv => nomatch hv)
  obtain ⟨-, -, hfield⟩ := World.value_member_ranked pantry_reached hlater (.refl _)
  obtain ⟨f, -, -, hinstance⟩ := hfield hmember rfl
  obtain ⟨-, hslot, -⟩ := hinstance (o := 0) (by decide +kernel)
  have hvalue : pantry.schema.Candidate (.cls 1) 0 1 1
      ⟨"Value", .scalar (.integer .i32), .field 1⟩ :=
    .field (d := pantry.schema.classes[0]) (j := 1) rfl rfl rfl
  have hlevel : pantry.schema.Candidate (.cls 1) 0 0 0
      ⟨"Level", .scalar (.integer .i32), .field 2⟩ :=
    .field (d := pantry.schema.classes[1]) (j := 0) rfl rfl rfl
  exact ⟨hmember, ⟨0, 1, 1, 1, rfl, hvalue, .value rfl (.inl rfl)⟩,
    ⟨0, 2, 0, 0, rfl, hlevel, .matching (.inl rfl)⟩, hslot⟩

end Scene

end RecordForge
