import RecordForge.Proofs.Access.Enumeration

/-!
# Which drafts are accepted

A draft is checked list by list, each entry against those before it, and the slot of a property that keeps
itself is counted from the fields before it. All the same a draft is accepted exactly if it is well formed
(`ClassDraft.WellFormed`), however its members are mixed. The class then has the fields, properties and
constructors in the order in which the draft declares them, and each property that keeps itself is kept in
the field that is named for it (`Schema.drafts_accepted`).
-/

namespace RecordForge

/-! ## What a member declares -/

namespace MemberDraft

/-- The name of the field that a member declares. -/
def fieldName? : MemberDraft → Option String
  | .field name .. => some name
  | .auto name _ => some (backingName name)
  | _ => none

/-- The name of the property that a member declares. -/
def propertyName? : MemberDraft → Option String
  | .auto name _ => some name
  | .property p => some p.name
  | _ => none

/-- The parameters of the constructor that a member declares. -/
def params? : MemberDraft → Option (List Ty)
  | .constructor c => some c.params
  | .defaultConstructor => some []
  | _ => none

/-- The field that a member declares. -/
def field? (s : Schema) : MemberDraft → Option FieldDecl
  | .field name type isPublic => some { name, type, isPublic, blank := s.blank type }
  | .auto name type =>
    some { name := backingName name, type, isPublic := false, blank := s.blank type }
  | _ => none

/-- The property that a member declares, where fields have slots by name. -/
def property? (slot? : String → Option Nat) : MemberDraft → Option PropertyDecl
  | .auto name type => (slot? (backingName name)).map fun k => ClassDraft.keeping k name type
  | .property p => some p
  | _ => none

/-- The constructor that a member declares; the default one runs that of the base, if there is one. -/
def constructor? (base : Option (Ty × Nat)) : MemberDraft → Option ConstructorDecl
  | .constructor c => some c
  | .defaultConstructor => some { params := [], isPublic := true, body := .chain base }
  | _ => none

end MemberDraft

namespace ClassDraft

variable {s : Schema} {draft : ClassDraft} {ms : List MemberDraft} {k : Nat}

/-- A draft of a class that can be declared. A value type is not abstract and has no base, and a base is a
class that is shared by reference. No name is given to two fields, also if the base has one of them, nor
to two properties, and no two constructors have the same parameters. -/
structure WellFormed (s : Schema) (d : ClassDraft) : Prop where
  kind : ¬(d.isValueType = true ∧ d.isAbstract = true)
  base : ∀ b ∈ d.base, s.isReferenceClass b = true ∧ d.isValueType = false
  fields : (d.members.filterMap MemberDraft.fieldName?).Nodup
  inherited : ∀ b ∈ d.base, ∀ f ∈ s.fields b, f.name ∉ d.members.filterMap MemberDraft.fieldName?
  properties : (d.members.filterMap MemberDraft.propertyName?).Nodup
  constructors : (d.members.filterMap MemberDraft.params?).Nodup

/-- The constructor without parameters of the base of a draft. -/
def baseDefault? (s : Schema) (d : ClassDraft) : Option (Ty × Nat) :=
  d.base.bind fun b => (s.defaultConstructor? b).map fun c => (b, c.1)

/-! ## Lists of members -/

/-- What members declare can be mapped member by member. -/
theorem map_filterMap_eq {α β : Type} {f : MemberDraft → Option α} {g : α → β}
    {f' : MemberDraft → Option β} (h : ∀ m, (f m).map g = f' m) (ms : List MemberDraft) :
    (ms.filterMap f).map g = ms.filterMap f' := by
  rw [List.map_filterMap, funext h]

theorem names_fields (draft : ClassDraft) :
    draft.fields.map Prod.fst = draft.members.filterMap MemberDraft.fieldName? :=
  map_filterMap_eq (fun m => by cases m <;> rfl) draft.members

theorem names_propertiesFrom (k : Nat) (ms : List MemberDraft) :
    (propertiesFrom k ms).map PropertyDecl.name = ms.filterMap MemberDraft.propertyName? := by
  induction ms generalizing k with
  | nil => rfl
  | cons m ms ih =>
    cases m with
    | auto name type => exact congrArg (name :: ·) (ih (k + 1))
    | property p => exact congrArg (p.name :: ·) (ih k)
    | field => exact ih (k + 1)
    | _ => exact ih k

theorem names_field? (s : Schema) (ms : List MemberDraft) :
    (ms.filterMap (MemberDraft.field? s)).map FieldDecl.name =
      ms.filterMap MemberDraft.fieldName? :=
  map_filterMap_eq (fun m => by cases m <;> rfl) ms

theorem constructors_eq (s : Schema) (draft : ClassDraft) : draft.constructors s =
    draft.members.filterMap (MemberDraft.constructor? (draft.baseDefault? s)) := rfl

theorem params_constructors (s : Schema) (draft : ClassDraft) :
    (draft.constructors s).map ConstructorDecl.params =
      draft.members.filterMap MemberDraft.params? :=
  map_filterMap_eq (fun m => by cases m <;> rfl) draft.members

/-- If the fields have the slots from `k` on by their names, the properties that keep themselves are those
that are kept there by name. -/
theorem propertiesFrom_eq {slot? : String → Option Nat}
    (h : ∀ j name, (ms.filterMap MemberDraft.fieldName?)[j]? = some name → slot? name = some (k + j)) :
    propertiesFrom k ms = ms.filterMap (MemberDraft.property? slot?) := by
  induction ms generalizing k with
  | nil => rfl
  | cons m ms ih =>
    -- a field takes one slot, and leaves the next ones to the rest
    have hnext : ∀ {first : String}, m.fieldName? = some first →
        slot? first = some k ∧
          propertiesFrom (k + 1) ms = ms.filterMap (MemberDraft.property? slot?) := by
      intro first hfirst
      rw [List.filterMap_cons_some hfirst] at h
      refine ⟨h 0 first rfl, ih fun j name hj => ?_⟩
      rw [h (j + 1) name hj, Nat.add_right_comm, Nat.add_assoc]
    have hskip : m.fieldName? = none →
        propertiesFrom k ms = ms.filterMap (MemberDraft.property? slot?) := by
      intro hnone
      rw [List.filterMap_cons_none hnone] at h
      exact ih h
    cases m with
    | field => exact (hnext rfl).2
    | auto name type =>
      obtain ⟨hslot, hrest⟩ := hnext rfl
      have hkept : (MemberDraft.auto name type).property? slot? = some (keeping k name type) := by
        rw [MemberDraft.property?, hslot]
        rfl
      rw [List.filterMap_cons_some hkept, ← hrest]
      rfl
    | property p => exact congrArg (p :: ·) (hskip rfl)
    | _ => exact hskip rfl

end ClassDraft

/-! ## Classes of drafts -/

namespace Schema

variable {s s' : Schema} {draft : ClassDraft} {c : ClassId} {d : ClassDecl} {name : String} {type : Ty}

/-- **A draft is accepted** exactly if it is well formed. -/
theorem offence?_eq_none_iff_wellFormed : s.offence? draft = none ↔ draft.WellFormed s := by
  rw [offence?_eq_none_iff, ClassDraft.names_fields]
  rw [show (s.finish draft).properties = ClassDraft.propertiesFrom _ draft.members from rfl,
    ClassDraft.names_propertiesFrom, show (s.finish draft).constructors = draft.constructors s from rfl,
    ClassDraft.params_constructors]
  have hinherited : ∀ names : List String, (∀ f ∈ draft.base.elim [] s.fields, f.name ∉ names) ↔
      ∀ b ∈ draft.base, ∀ f ∈ s.fields b, f.name ∉ names := by
    intro names
    cases draft.base <;> simp
  rw [hinherited]
  constructor
  · rintro ⟨hkind, hbase, hfields, hnew, hproperties, hconstructors⟩
    refine ⟨fun ⟨hvalue, habstract⟩ => ?_, hbase, hfields, hnew, hproperties, hconstructors⟩
    exact Bool.false_ne_true ((hkind hvalue).symm.trans habstract)
  · rintro ⟨hkind, hbase, hfields, hnew, hproperties, hconstructors⟩
    refine ⟨fun hvalue => ?_, hbase, hfields, hnew, hproperties, hconstructors⟩
    exact Bool.eq_false_iff.mpr fun habstract => hkind ⟨hvalue, habstract⟩

theorem layout_finish (s : Schema) (draft : ClassDraft) : (s.finish draft).layout =
    draft.base.elim [] s.fields ++ draft.members.filterMap (MemberDraft.field? s) := by
  rw [← fields_base]
  refine congrArg (_ ++ ·) ?_
  exact ClassDraft.map_filterMap_eq (fun m => by cases m <;> rfl) draft.members

/-- A class that has just been declared. -/
theorem class?_of_declare (h : s.declare draft = .ok (c, s')) :
    s'.class? c = some (s.finish draft) ∧ (s.finish draft).Drafted s' c draft := by
  obtain ⟨hoffence, hadd⟩ := declare_eq_ok_iff.mp h
  obtain ⟨rfl, rfl⟩ := Prod.mk.inj hadd
  exact ⟨class?_addClass s _, s, extends_addClass s _, hoffence, rfl, rfl⟩

/-- The fields that a draft declares have the slots behind those of the base, by their names. -/
theorem fieldSlot?_of_declare (h : s.declare draft = .ok (c, s')) {j : Nat}
    (hj : (draft.members.filterMap MemberDraft.fieldName?)[j]? = some name) :
    s'.fieldSlot? (.cls c) name = some ((draft.base.elim [] s.fields).length + j) := by
  obtain ⟨hc, hdrafted⟩ := class?_of_declare h
  have hmem := List.mem_of_getElem? hj
  rw [← ClassDraft.names_fields] at hmem
  rw [← ClassDraft.names_field? s, List.getElem?_map] at hj
  obtain ⟨f, hf, rfl⟩ := Option.map_eq_some_iff.mp hj
  refine fieldSlot?_of_drafted hdrafted hc ?_ hmem
  rw [layout_finish, List.getElem?_append_right (Nat.le_add_right ..), Nat.add_sub_cancel_left]
  exact hf

/-- A class begins the search for a property that it declares. -/
theorem findProperty?_of_nodup (hc : s.class? c = some d)
    (hnodup : (d.properties.map PropertyDecl.name).Nodup) {p : PropertyDecl} (hp : p ∈ d.properties) :
    s.findProperty? (.cls c) p.name = some (.cls c, p) := by
  rw [findProperty?, lineage, ancestors, List.filterMap_cons,
    show s.decl? (.cls c) = some d from hc, Option.map_some, List.findSome?_cons]
  dsimp only
  rw [find?_of_nodup hnodup hp, Option.map_some]

end Schema

/-! ## Properties that keep themselves -/

namespace World

variable {w : World} {o : ObjectId} {a : Ty} {field name : String} {type : Ty} {k : Nat}

/-- A field of an object backs a property of it. The property is read from the field, and writing it
writes the field and nothing else. -/
structure Backs (w : World) (o : ObjectId) (field name : String) : Prop where
  reads : ∀ depth, Run.getProperty (depth + 1) o name w = Run.readField o field w
  writes : ∀ depth v, Run.setProperty (depth + 1) o name v w = Run.writeField o field v w
  readable : ∃ v, Run.readField o field w = (.ok v, w)
  writable : ∀ {v}, v.Known w.heap → ∃ k w' u, w.schema.fieldSlot? (w.classOf o) field = some k ∧
    Run.writeField o field v w = (.ok (), w') ∧ w.heap.Overwrites w'.heap o (· = k) ∧
      w'.heap.field? o k = some u ∧ w.heap.Alike w'.heap v u

/-- A property that keeps itself is backed by the field that has its slot, on all objects for which it is
found. -/
theorem backs_of_keeping (hw : Guards {} w)
    (hfound : w.schema.findProperty? (w.classOf o) name = some (a, ClassDraft.keeping k name type))
    (hslot : w.schema.fieldSlot? a field = some k) : w.Backs o field name := by
  have hsettled := hw.settled settled_empty
  have hslot : w.schema.fieldSlot? (w.classOf o) field = some k :=
    hsettled.formed.schema.fieldSlot?_below (Schema.mem_ancestors_of_findProperty? hfound) hslot
  have hgetter : w.schema.getterFor (w.classOf o) name = .ok (.slot k) := by
    rw [Schema.getterFor, Schema.accessor?_of_findProperty? hfound rfl]
    rfl
  have hsetter : w.schema.setterFor (w.classOf o) name = .ok (.slot k) := by
    rw [Schema.setterFor, Schema.accessor?_of_findProperty? hfound rfl]
    rfl
  -- the object is there, and has the slot
  obtain ⟨⟨f, hf, -⟩, -⟩ := Schema.fieldSlot?_eq_some_iff.mp hslot
  have ho : o < w.heap.objects.size := by
    by_contra hno
    have hnone : w.heap.object? o = none := Array.getElem?_eq_none (Nat.le_of_not_lt hno)
    rw [classOf, Schema.classOf, hnone] at hf
    cases hf
  obtain ⟨i, hi, hk⟩ := hsettled.formed.hasSlots ho (t := w.classOf o)
    (by simp [isInstance, Schema.isAssignable]) (List.getElem?_eq_some_iff.mp hf).1
  refine ⟨fun depth => ?_, fun depth v => ?_, ⟨i.fields[k], ?_⟩, fun {v} hv => ?_⟩
  · rw [getProperty_run hgetter, readField_eq hslot]
    rfl
  · rw [setProperty_run hsetter, writeField_eq hslot]
    rfl
  · rw [readField_eq hslot]
    exact Run.check_of_ok (field_eq_ok_iff.mpr (by simp [Heap.field?, hi]))
  · have hstore : w.heap.store o k v = some ((w.heap.assign v).2.put o k (w.heap.assign v).1) :=
      Heap.store_eq_some_iff.mpr ⟨i, hi, hk, rfl⟩
    obtain ⟨hoverwrites, u, hu, hsame⟩ := Heap.store_spec hsettled.tidy.heap hv hstore
    refine ⟨k, { w with heap := _ }, u, hslot, ?_, hoverwrites, hu, hsame⟩
    rw [writeField_eq hslot]
    exact Run.change_of_ok (setField_eq_ok_iff.mpr ⟨_, hstore, rfl⟩)

end World

namespace Schema

variable {s s' : Schema} {draft : ClassDraft} {c : ClassId} {name : String} {type : Ty}

/-- In each world that comes about with what a schema declares, also in the middle of a run, a property
of a class is backed by a field, on all objects for which it is found. -/
def Backed (s : Schema) (c : ClassId) (p : PropertyDecl) (field : String) : Prop :=
  ∀ w₀ w : World, w₀.Reached → w₀.Guards w → s.Extends w.schema → ∀ o,
    w.schema.findProperty? (w.classOf o) p.name = some (.cls c, p) → w.Backs o field p.name

/-- A property that keeps itself is backed by the field that has its slot. -/
theorem backed_of_keeping {d : ClassDecl} {field : String} {k : Nat} (hd : s.decl? (.cls c) = some d)
    (hslot : s.fieldSlot? (.cls c) field = some k) : s.Backed c (ClassDraft.keeping k name type) field := by
  intro w₀ w hw hguards hextends o hfound
  refine World.backs_of_keeping (hw.guards.trans hguards) hfound ?_
  rw [fieldSlot?, fields_eq hextends (declares_of_decl? hd)]
  exact hslot

/-- A draft is accepted exactly if it is well formed. -/
theorem exists_declare_iff : (∃ c s', s.declare draft = .ok (c, s')) ↔ draft.WellFormed s := by
  rw [← offence?_eq_none_iff_wellFormed]
  constructor
  · rintro ⟨c, s', h⟩
    exact (declare_eq_ok_iff.mp h).1
  · intro hoffence
    exact ⟨_, _, declare_eq_ok_iff.mpr ⟨hoffence, rfl⟩⟩

/-- The properties of the class that is declared. -/
theorem properties_of_declare (h : s.declare draft = .ok (c, s')) : (s.finish draft).properties =
    draft.members.filterMap (MemberDraft.property? (s'.fieldSlot? (.cls c))) := by
  refine ClassDraft.propertiesFrom_eq fun j name hj => ?_
  rw [fieldSlot?_of_declare h hj, fields_base]

/-- A property that keeps itself has the slot of the field of its name. -/
theorem exists_keeping (h : s.declare draft = .ok (c, s')) (hmem : .auto name type ∈ draft.members) :
    ∃ k, s'.fieldSlot? (.cls c) (backingName name) = some k ∧
      s'.findProperty? (.cls c) name = some (.cls c, ClassDraft.keeping k name type) := by
  obtain ⟨hc, hdrafted⟩ := class?_of_declare h
  have hfield : backingName name ∈ draft.members.filterMap MemberDraft.fieldName? :=
    List.mem_filterMap.mpr ⟨_, hmem, rfl⟩
  obtain ⟨j, hj⟩ := List.mem_iff_getElem?.mp hfield
  have hslot := fieldSlot?_of_declare h hj
  have hkept : ClassDraft.keeping ((draft.base.elim [] s.fields).length + j) name type ∈
      (s.finish draft).properties := by
    rw [properties_of_declare h]
    refine List.mem_filterMap.mpr ⟨_, hmem, ?_⟩
    rw [MemberDraft.property?, hslot]
    rfl
  exact ⟨_, hslot, findProperty?_of_nodup hc (hdrafted.distinct hc).2.2.1 hkept⟩

/-- **Which drafts are accepted.** A draft is accepted exactly if it is well formed. The class that is
declared has the fields of its base, and then its own fields, properties and constructors as the draft lists
them. Each property that keeps itself has, on all objects for which it is found, the field of its name
behind it, whatever is declared around it and later. -/
theorem drafts_accepted (s : Schema) (draft : ClassDraft) :
    ((∃ c s', s.declare draft = .ok (c, s')) ↔ draft.WellFormed s) ∧
    ∀ {c s'}, s.declare draft = .ok (c, s') → ∃ d, s'.class? c = some d ∧
      d.layout = draft.base.elim [] s.fields ++ draft.members.filterMap (MemberDraft.field? s) ∧
      d.properties = draft.members.filterMap (MemberDraft.property? (s'.fieldSlot? (.cls c))) ∧
      d.constructors =
        draft.members.filterMap (MemberDraft.constructor? (draft.baseDefault? s)) ∧
      ∀ {name type}, .auto name type ∈ draft.members →
        ∃ p, s'.findProperty? (.cls c) name = some (.cls c, p) ∧ s'.Backed c p (backingName name) := by
  refine ⟨exists_declare_iff, fun {c s'} h => ?_⟩
  obtain ⟨hc, -⟩ := class?_of_declare h
  refine ⟨_, hc, layout_finish s draft, properties_of_declare h, ClassDraft.constructors_eq s draft,
    fun {name type} hmem => ?_⟩
  obtain ⟨k, hslot, hfound⟩ := exists_keeping h hmem
  exact ⟨_, hfound, backed_of_keeping hc hslot⟩

end Schema

namespace Scene

/-- A draft of a class with a field and a property that keeps itself. -/
def bureauDesk : ClassDraft where
  name := "Bureau.Desk"
  members := [.field "Wood" (.scalar .text) true, .auto "Width" (.scalar (.integer .i32)),
    .defaultConstructor]

/-- A draft of a class below, with other members around its properties that keep themselves. -/
def bureauCabinet : ClassDraft where
  name := "Bureau.Cabinet"
  base := some (.cls 0)
  members := [
    .defaultConstructor, .field "Doors" (.scalar (.integer .i32)) true,
    .property { name := "Material", type := .scalar .text, getter := some (.body (.slot 0)) },
    .auto "Key" (.scalar .text), .field "Lamp" (.scalar .bool) false,
    .auto "Shelves" (.scalar (.integer .i32)),
    .constructor { params := [.scalar .text], isPublic := true, body := .chain none }]

/-- The world in which both classes have been declared, with a cabinet. -/
def bureau : World :=
  ((Deed.construct (.cls 1) 0 []).run 8
    { schema := addDrafts {} [bureauDesk, bureauCabinet] }).2

theorem bureau_reached : bureau.Reached := by
  have hdeclared : World.Reached { schema := addDrafts {} [bureauDesk, bureauCabinet] } :=
    declare_reached .refl (by decide +kernel) (by decide +kernel)
  exact hdeclared.tail (.deed 8 fun _ hv => (List.not_mem_nil hv).elim)

/-- The draft of a cabinet is well formed, and is not if it has a field as well that is named for the key.
The key of a cabinet is kept in its field. -/
theorem drafts_accepted_bureau :
    bureauCabinet.WellFormed (addDrafts {} [bureauDesk]) ∧
      ¬({ bureauCabinet with members := .field "_Key" .any true :: bureauCabinet.members }).WellFormed
        (addDrafts {} [bureauDesk]) ∧
      bureau.Backs 0 "_Key" "Key" := by
  have hdeclare : (addDrafts {} [bureauDesk]).declare bureauCabinet =
      .ok (1, addDrafts {} [bureauDesk, bureauCabinet]) := rfl
  obtain ⟨hiff, hdeclared⟩ := Schema.drafts_accepted (addDrafts {} [bureauDesk]) bureauCabinet
  refine ⟨hiff.mp ⟨_, _, hdeclare⟩, fun h => ?_, ?_⟩
  · obtain ⟨c, s', h⟩ := (Schema.drafts_accepted _ _).1.mpr h
    cases h
  · obtain ⟨d, -, -, -, -, hauto⟩ := hdeclared hdeclare
    have hkey : .auto "Key" (.scalar .text) ∈ bureauCabinet.members := by simp [bureauCabinet]
    obtain ⟨p, hp, hbacks⟩ := hauto hkey
    obtain ⟨k, hslot, hfound⟩ := Schema.exists_keeping hdeclare hkey
    obtain rfl := (Prod.mk.inj (Option.some.inj (hp.symm.trans hfound))).2
    exact hbacks bureau bureau bureau_reached (.refl _) (.refl _) 0 hfound

end Scene

end RecordForge
