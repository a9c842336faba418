import Mathlib.Data.List.Nodup
import RecordForge.Schema.Draft

/-!
# What accepted drafts declare

A draft that is accepted repeats no name: neither one of its own fields, nor one that the base has. Nor
does it repeat the parameter types of a constructor (`Schema.distinct_of_offence?`). A property that
keeps itself reads and writes the slot of the field that is declared with it (`ClassDraft.exists_auto`).
-/

namespace RecordForge

/-- Nothing is repeated among distinct entries that have not been seen before. -/
theorem firstRepeat_eq_none {α : Type} [BEq α] [LawfulBEq α] {seen xs : List α} :
    firstRepeat seen xs = none ↔ xs.Nodup ∧ ∀ x ∈ xs, x ∉ seen := by
  induction xs generalizing seen with
  | nil => simp [firstRepeat]
  | cons x xs ih =>
    by_cases hx : x ∈ seen
    · have hrepeat : firstRepeat seen (x :: xs) = some x := by
        rw [firstRepeat, if_pos (List.contains_iff_mem.mpr hx)]
      rw [hrepeat]
      simp [hx]
    · have hnext : firstRepeat seen (x :: xs) = firstRepeat (x :: seen) xs := by
        rw [firstRepeat, if_neg (by simpa using hx)]
      rw [hnext, ih, List.nodup_cons]
      constructor
      · rintro ⟨hnodup, hnew⟩
        refine ⟨⟨fun hmem => hnew x hmem List.mem_cons_self, hnodup⟩, fun y hy => ?_⟩
        rcases List.mem_cons.mp hy with rfl | hy
        · exact hx
        · exact fun hseen => hnew y hy (List.mem_cons_of_mem _ hseen)
      · rintro ⟨⟨hfirst, hnodup⟩, hnew⟩
        refine ⟨hnodup, fun y hy hseen => ?_⟩
        rcases List.mem_cons.mp hseen with rfl | hseen
        · exact hfirst hy
        · exact hnew y (List.mem_cons_of_mem _ hy) hseen

namespace ClassDraft

variable {k : Nat} {name : String} {type : Ty}

/-- A property that keeps itself, at a slot. -/
def keeping (slot : Nat) (name : String) (type : Ty) : PropertyDecl :=
  { name, type, getter := some (.body (.slot slot)), setter := some (.body (.slot slot)) }

/-- **A property that keeps itself** is kept in the field that is declared with it. -/
theorem exists_auto {draft : ClassDraft} (h : .auto name type ∈ draft.members) :
    ∃ j, draft.fields[j]? = some (backingName name, type, false) ∧
      keeping (k + j) name type ∈ propertiesFrom k draft.members := by
  revert h
  rw [fields]
  generalize draft.members = ms
  intro h
  -- each field that is passed moves the slot on by one
  induction ms generalizing k with
  | nil => cases h
  | cons m ms ih =>
    rcases List.mem_cons.mp h with rfl | hrest
    · exact ⟨0, rfl, List.mem_cons_self⟩
    · have hslot : ∀ j, k + (j + 1) = k + 1 + j := by omega
      cases m with
      | field =>
        obtain ⟨j, hfield, hkept⟩ := ih (k := k + 1) hrest
        exact ⟨j + 1, hfield, hslot j ▸ hkept⟩
      | auto =>
        obtain ⟨j, hfield, hkept⟩ := ih (k := k + 1) hrest
        exact ⟨j + 1, hfield, List.mem_cons_of_mem _ (hslot j ▸ hkept)⟩
      | property =>
        obtain ⟨j, hfield, hkept⟩ := ih (k := k) hrest
        exact ⟨j, hfield, List.mem_cons_of_mem _ hkept⟩
      | constructor => exact ih hrest
      | defaultConstructor => exact ih hrest
      | static => exact ih hrest
      | receiver => exact ih hrest

end ClassDraft

namespace Schema

variable {s : Schema} {draft : ClassDraft}

/-- A class inherits the fields of the base that its draft names. -/
theorem fields_base (s : Schema) (draft : ClassDraft) :
    (draft.base.bind s.decl?).elim [] ClassDecl.layout = draft.base.elim [] s.fields := by
  cases draft.base <;> rfl

/-- **A draft is accepted** if it offends against none of the rules. -/
theorem offence?_eq_none_iff : s.offence? draft = none ↔
    (draft.isValueType = true → draft.isAbstract = false) ∧
      (∀ b ∈ draft.base, s.isReferenceClass b = true ∧ draft.isValueType = false) ∧
      (draft.fields.map Prod.fst).Nodup ∧
      (∀ f ∈ draft.base.elim [] s.fields, f.name ∉ draft.fields.map Prod.fst) ∧
      ((s.finish draft).properties.map PropertyDecl.name).Nodup ∧
      ((s.finish draft).constructors.map ConstructorDecl.params).Nodup := by
  have hkind : (draft.isValueType = true → draft.isAbstract = false) ↔
      ¬(draft.isValueType && draft.isAbstract) = true := by
    cases draft.isValueType <;> simp
  have hbase : (∀ b ∈ draft.base, s.isReferenceClass b = true ∧ draft.isValueType = false) ↔
      (draft.base.filter fun b => !s.isReferenceClass b || draft.isValueType) = none := by
    rw [Option.filter_eq_none_iff]
    simp
  have hfields : (draft.fields.map Prod.fst).Nodup ∧
      (∀ f ∈ draft.base.elim [] s.fields, f.name ∉ draft.fields.map Prod.fst) ↔
        firstRepeat ((draft.base.elim [] s.fields).map FieldDecl.name) (draft.fields.map Prod.fst) =
          none := by
    rw [firstRepeat_eq_none]
    refine and_congr_right fun _ => ⟨fun hnew x hx hseen => ?_, fun hnew f hf hmem => ?_⟩
    · obtain ⟨f, hf, rfl⟩ := List.mem_map.mp hseen
      exact hnew f hf hx
    · exact hnew f.name hmem (List.mem_map_of_mem hf)
  have hunseen : ∀ {α : Type} [BEq α] [LawfulBEq α] (xs : List α),
      xs.Nodup ↔ firstRepeat [] xs = none := fun xs => by simp [firstRepeat_eq_none]
  rw [hkind, hbase, ← and_assoc (a := List.Nodup _), hfields, hunseen, hunseen, offence?]
  -- the checks in their order
  split
  · next hno => simp [hno]
  next hyes =>
  split
  · next hinvalid => simp [hinvalid]
  next hvalid =>
  dsimp only
  split
  · next hrepeat => simp [hrepeat]
  next hdistinct =>
  rw [finish, fields_base]
  split
  · next hrepeat => simp [hrepeat]
  next hnames => simp [hyes, hvalid, hdistinct, hnames]

/-- **An accepted draft repeats no name**, and no parameter types of constructors. -/
theorem distinct_of_offence? (h : s.offence? draft = none) :
    (draft.fields.map Prod.fst).Nodup ∧
      (∀ f ∈ draft.base.elim [] s.fields, f.name ∉ draft.fields.map Prod.fst) ∧
      ((s.finish draft).properties.map PropertyDecl.name).Nodup ∧
      ((s.finish draft).constructors.map ConstructorDecl.params).Nodup :=
  (offence?_eq_none_iff.mp h).2.2

end Schema

end RecordForge
