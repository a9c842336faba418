import RecordForge.Proofs.Heap.Storage

/-!
# Heaps that mirror each other

Two runs of the same bodies make the same objects in the same order, so an object has one number in
both. Carriers are another matter: one run may make a carrier where the other does with one that it
has. A `Pairing` says which carriers of the one run stand for which of the other; values *match* if
they differ in such carriers only, and heaps *mirror* each other if the values in their objects match.

Whatever an operation does to a heap, it does to a mirroring one.
-/

namespace RecordForge

/-- Which carriers stand for which others. -/
abbrev Pairing := CarrierId → CarrierId → Prop

/-- Two values differ at the most in carriers, of which one stands for the other. -/
inductive Value.Matches (β : Pairing) : Value → Value → Prop
  | null : Matches β .null .null
  | scalar (s : Scalar) : Matches β (.scalar s) (.scalar s)
  | object (o : ObjectId) : Matches β (.object o) (.object o)
  | carrier {a b : CarrierId} (h : β a b) : Matches β (.carrier a) (.carrier b)

/-- Lists of values that match, one by one. -/
abbrev Value.AllMatch (β : Pairing) : List Value → List Value → Prop := List.Forall₂ (Value.Matches β)

/-- Two objects of one class whose fields match. -/
structure Instance.Matches (β : Pairing) (i j : Instance) : Prop where
  cls : j.cls = i.cls
  byValue : j.byValue = i.byValue
  fields : Value.AllMatch β i.fields j.fields

variable {β β' : Pairing} {v v' u u' : Value} {vs us : List Value}

namespace Value

theorem Matches.mono (hβ : ∀ a b, β a b → β' a b) (h : v.Matches β u) : v.Matches β' u := by
  cases h with
  | null => exact .null
  | scalar s => exact .scalar s
  | object o => exact .object o
  | carrier h => exact .carrier (hβ _ _ h)

theorem AllMatch.mono (hβ : ∀ a b, β a b → β' a b) (h : AllMatch β vs us) : AllMatch β' vs us :=
  h.imp fun _ _ => Matches.mono hβ

theorem AllMatch.mono_option (hβ : ∀ a b, β a b → β' a b) {x y : Option (List Value)}
    (h : Option.Rel (AllMatch β) x y) : Option.Rel (AllMatch β') x y := by
  cases h with
  | none => exact .none
  | some h => exact .some (h.mono hβ)

/-- The values at one place of two lists. -/
theorem AllMatch.getElem? (h : AllMatch β vs us) (k : Nat) :
    Option.Rel (Matches β) vs[k]? us[k]? := by
  induction h generalizing k with
  | nil => exact .none
  | cons hv _ ih =>
    cases k with
    | zero => exact .some hv
    | succ k => exact ih k

/-- The values at one place; null where there is none. -/
theorem AllMatch.getD (h : AllMatch β vs us) (k : Nat) :
    Matches β (vs.getD k .null) (us.getD k .null) := by
  have hrel := h.getElem? k
  rw [List.getD_eq_getElem?_getD, List.getD_eq_getElem?_getD]
  generalize vs[k]? = x at hrel ⊢
  generalize us[k]? = y at hrel ⊢
  cases hrel with
  | none => exact .null
  | some hv => exact hv

theorem AllMatch.set (h : AllMatch β vs us) (k : Nat) (hv : v.Matches β u) :
    AllMatch β (vs.set k v) (us.set k u) := by
  induction h generalizing k with
  | nil => exact .nil
  | cons hw hws ih =>
    cases k with
    | zero => exact .cons hv hws
    | succ k => exact .cons hw (ih k)

end Value

theorem Instance.Matches.mono {i j : Instance} (hβ : ∀ a b, β a b → β' a b) (h : i.Matches β j) :
    i.Matches β' j := ⟨h.cls, h.byValue, h.fields.mono hβ⟩

namespace Heap

/-- Two heaps have the same objects, and what their fields hold matches. -/
structure Mirrors (β : Pairing) (h h' : Heap) : Prop where
  size : h'.objects.size = h.objects.size
  object : ∀ {o i}, h.object? o = some i → ∃ j, h'.object? o = some j ∧ i.Matches β j

variable {h h' : Heap} {o : ObjectId} {k : Nat}

namespace Mirrors

theorem mono (hβ : ∀ a b, β a b → β' a b) (hm : h.Mirrors β h') : h.Mirrors β' h' where
  size := hm.size
  object ho := (hm.object ho).imp fun _ hj => ⟨hj.1, hj.2.mono hβ⟩

/-- An object is in neither heap, or in both. -/
theorem object?_cases (hm : h.Mirrors β h') (o : ObjectId) :
    h.object? o = none ∧ h'.object? o = none ∨
      ∃ i j, h.object? o = some i ∧ h'.object? o = some j ∧ i.Matches β j := by
  cases ho : h.object? o with
  | none =>
    refine .inl ⟨rfl, ?_⟩
    rw [object?_eq_none_iff] at ho ⊢
    rw [hm.size]
    exact ho
  | some i =>
    obtain ⟨j, hj, hmatch⟩ := hm.object ho
    exact .inr ⟨i, j, rfl, hj, hmatch⟩

theorem object?_rel (hm : h.Mirrors β h') (o : ObjectId) :
    Option.Rel (Instance.Matches β) (h.object? o) (h'.object? o) := by
  rcases hm.object?_cases o with ⟨hi, hj⟩ | ⟨i, j, hi, hj, hmatch⟩
  · rw [hi, hj]
    exact .none
  · rw [hi, hj]
    exact .some hmatch

theorem isByValue_eq (hm : h.Mirrors β h') (hv : v.Matches β u) :
    h'.isByValue u = h.isByValue v := by
  cases hv with
  | object o =>
    rcases hm.object?_cases o with ⟨hi, hj⟩ | ⟨i, j, hi, hj, hmatch⟩
    · rw [isByValue, isByValue, hi, hj]
    · rw [isByValue, isByValue, hi, hj]
      exact hmatch.byValue
  | null => rfl
  | scalar s => rfl
  | carrier _ => rfl

theorem field?_rel (hm : h.Mirrors β h') (o : ObjectId) (k : Nat) :
    Option.Rel (Value.Matches β) (h.field? o k) (h'.field? o k) := by
  rcases hm.object?_cases o with ⟨hi, hj⟩ | ⟨i, j, hi, hj, hmatch⟩
  · rw [field?, field?, hi, hj]
    exact .none
  · rw [field?, field?, hi, hj]
    exact hmatch.fields.getElem? k

/-- Heaps whose objects change in the same way. -/
theorem of_object? {g g' : Heap} (hsize : g'.objects.size = g.objects.size)
    (hobject : ∀ o, Option.Rel (Instance.Matches β) (g.object? o) (g'.object? o)) :
    g.Mirrors β g' where
  size := hsize
  object {o i} ho := by
    have hrel := hobject o
    rw [ho] at hrel
    cases hg : g'.object? o with
    | none => rw [hg] at hrel; cases hrel
    | some j =>
      rw [hg] at hrel
      cases hrel with
      | some hmatch => exact ⟨j, rfl, hmatch⟩

/-! ## Single objects -/

theorem reserve (hm : h.Mirrors β h') (cls : ClassId) (byValue : Bool) :
    (h.reserve cls byValue).2.Mirrors β (h'.reserve cls byValue).2 := by
  refine .of_object? ?_ fun o => ?_
  · rw [size_reserve, size_reserve, hm.size]
  · rw [object?_reserve, object?_reserve, hm.size]
    split
    · exact .some ⟨rfl, rfl, .nil⟩
    · exact hm.object?_rel o

theorem fill (hm : h.Mirrors β h') (o : ObjectId) (hvs : Value.AllMatch β vs us) :
    (h.fill o vs).Mirrors β (h'.fill o us) := by
  refine .of_object? ?_ fun x => ?_
  · rw [size_fill, size_fill, hm.size]
  · rw [object?_fill, object?_fill]
    split
    · rcases hm.object?_cases o with ⟨hi, hj⟩ | ⟨i, j, hi, hj, hmatch⟩
      · rw [hi, hj]
        exact .none
      · rw [hi, hj]
        exact .some ⟨hmatch.cls, hmatch.byValue, hvs⟩
    · exact hm.object?_rel x

theorem put (hm : h.Mirrors β h') (o : ObjectId) (k : Nat) (hv : v.Matches β u) :
    (h.put o k v).Mirrors β (h'.put o k u) := by
  refine .of_object? ?_ fun x => ?_
  · rw [size_put, size_put, hm.size]
  · rw [object?_put, object?_put]
    split
    · rcases hm.object?_cases o with ⟨hi, hj⟩ | ⟨i, j, hi, hj, hmatch⟩
      · rw [hi, hj]
        exact .none
      · rw [hi, hj]
        exact .some ⟨hmatch.cls, hmatch.byValue, hmatch.fields.set k hv⟩
    · exact hm.object?_rel x

/-- The objects of a heap do not depend on its carriers. -/
theorem carriers (hm : h.Mirrors β h') (left right : Array (Option (List Value))) :
    Mirrors β { h with carriers := left } { h' with carriers := right } := ⟨hm.size, hm.object⟩

end Mirrors

/-! ## Blanks -/

mutual

theorem place_mirrors {h h' : Heap} (hm : h.Mirrors β h') (b : Blank) :
    (h.place b).1.Matches β (h'.place b).1 ∧ (h.place b).2.Mirrors β (h'.place b).2 := by
  cases b with
  | null => exact ⟨.null, hm⟩
  | scalar s => exact ⟨.scalar s, hm⟩
  | record c bs =>
    obtain ⟨hvs, hm'⟩ := placeAll_mirrors (hm.reserve c true) bs
    simp only [place, Heap.reserve, hm.size]
    exact ⟨.object _, hm'.fill _ hvs⟩
termination_by sizeOf b

theorem placeAll_mirrors {h h' : Heap} (hm : h.Mirrors β h') (bs : List Blank) :
    Value.AllMatch β (h.placeAll bs).1 (h'.placeAll bs).1 ∧
      (h.placeAll bs).2.Mirrors β (h'.placeAll bs).2 := by
  cases bs with
  | nil => exact ⟨.nil, hm⟩
  | cons b bs =>
    obtain ⟨hv, hm₁⟩ := place_mirrors hm b
    obtain ⟨hvs, hm₂⟩ := placeAll_mirrors hm₁ bs
    exact ⟨.cons hv hvs, hm₂⟩
termination_by sizeOf bs

end

/-- A new object has one number in both. -/
theorem allocate_mirrors (hm : h.Mirrors β h') (cls : ClassId) (byValue : Bool) (bs : List Blank) :
    (h'.allocate cls byValue bs).1 = (h.allocate cls byValue bs).1 ∧
      (h.allocate cls byValue bs).2.Mirrors β (h'.allocate cls byValue bs).2 := by
  obtain ⟨hvs, hm'⟩ := placeAll_mirrors (hm.reserve cls byValue) bs
  have hsize : (h'.allocate cls byValue bs).1 = (h.allocate cls byValue bs).1 := hm.size
  refine ⟨hsize, ?_⟩
  simp only [allocate, Heap.reserve, hm.size]
  exact hm'.fill _ hvs

/-! ## Copies -/

/-- A way to copy objects that does in mirroring heaps the same. -/
def CopiesAlike (β : Pairing) (copy : Heap → ObjectId → ObjectId × Heap) : Prop :=
  ∀ h h' o, h.Mirrors β h' → (copy h' o).1 = (copy h o).1 ∧ (copy h o).2.Mirrors β (copy h' o).2

section
variable {copy : Heap → ObjectId → ObjectId × Heap} (hcopy : CopiesAlike β copy)
include hcopy

theorem assignWith_mirrors (hm : h.Mirrors β h') (hv : v.Matches β u) :
    (h.assignWith copy v).1.Matches β (h'.assignWith copy u).1 ∧
      (h.assignWith copy v).2.Mirrors β (h'.assignWith copy u).2 := by
  cases hv with
  | object o =>
    have hsame := hm.isByValue_eq (.object (β := β) o)
    simp only [assignWith, hsame]
    split
    · obtain ⟨ho, hm'⟩ := hcopy h h' o hm
      rw [ho]
      exact ⟨.object _, hm'⟩
    · exact ⟨.object o, hm⟩
  | null => exact ⟨.null, hm⟩
  | scalar s => exact ⟨.scalar s, hm⟩
  | carrier hc => exact ⟨.carrier hc, hm⟩

theorem assignAll_mirrors (hm : h.Mirrors β h') (hvs : Value.AllMatch β vs us) :
    Value.AllMatch β (h.assignAll copy vs).1 (h'.assignAll copy us).1 ∧
      (h.assignAll copy vs).2.Mirrors β (h'.assignAll copy us).2 := by
  induction hvs generalizing h h' with
  | nil => exact ⟨.nil, hm⟩
  | cons hv _ ih =>
    obtain ⟨hv', hm₁⟩ := assignWith_mirrors hcopy hm hv
    obtain ⟨hvs', hm₂⟩ := ih hm₁
    exact ⟨.cons hv' hvs', hm₂⟩

end

/-- Copying down to a depth. -/
theorem copyTo_alike (depth : Nat) : CopiesAlike β (copyTo depth) := by
  induction depth with
  | zero => exact fun h h' o hm => ⟨rfl, hm⟩
  | succ depth ih =>
    intro h h' o hm
    rcases hm.object?_cases o with ⟨hi, hj⟩ | ⟨i, j, hi, hj, hmatch⟩
    · simp only [copyTo, hi, hj]
      exact ⟨trivial, hm⟩
    · obtain ⟨hvs, hm'⟩ := assignAll_mirrors ih (hm.reserve i.cls i.byValue) hmatch.fields
      simp only [copyTo, hi, hj, hmatch.cls, hmatch.byValue]
      refine ⟨hm.size, ?_⟩
      rw [show (h'.reserve i.cls i.byValue).1 = (h.reserve i.cls i.byValue).1 from hm.size]
      exact hm'.fill _ hvs

/-- Preparing a value to be stored. -/
theorem assign_mirrors (hm : h.Mirrors β h') (hv : v.Matches β u) :
    (h.assign v).1.Matches β (h'.assign u).1 ∧ (h.assign v).2.Mirrors β (h'.assign u).2 := by
  have hcopy : CopiesAlike β copy := fun g g' o hg => by
    rw [copy, copy, hg.size]
    exact copyTo_alike g.objects.size g g' o hg
  exact assignWith_mirrors hcopy hm hv

/-- Storing. -/
theorem store_mirrors (hm : h.Mirrors β h') (o : ObjectId) (k : Nat) (hv : v.Matches β u) :
    Option.Rel (Mirrors β) (h.store o k v) (h'.store o k u) := by
  rcases hm.object?_cases o with ⟨hi, hj⟩ | ⟨i, j, hi, hj, hmatch⟩
  · rw [store, store, hi, hj]
    exact .none
  · simp only [store, hi, hj, ← hmatch.fields.length_eq]
    split
    · obtain ⟨hv', hm'⟩ := assign_mirrors hm hv
      exact .some (hm'.put o k hv')
    · exact .none

end Heap

end RecordForge
