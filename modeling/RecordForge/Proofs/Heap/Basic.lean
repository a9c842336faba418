import Mathlib.Data.List.Forall2
import RecordForge.Heap

/-!
# Heaps that grow

No operation takes an object or a carrier away, and an object keeps its class, its mode of storage
and its number of fields: its *shape*. So a value that is *known*, one that refers to something that
is there, stays known.

The lemmas of each primitive say what the heap is afterwards, object by object.
-/

namespace RecordForge

/-- What an object never changes: its class, whether it is held by value, and how many fields it
has. -/
structure Shape where
  cls : ClassId
  byValue : Bool
  size : Nat
deriving DecidableEq

/-- The shape of an object. -/
def Instance.shape (i : Instance) : Shape := ⟨i.cls, i.byValue, i.fields.length⟩

/-- A value refers to nothing that is not there. -/
def Value.Known (h : Heap) : Value → Prop
  | .object o => o < h.objects.size
  | .carrier c => c < h.carriers.size
  | .null | .scalar _ => True

instance (h : Heap) : (v : Value) → Decidable (v.Known h)
  | .object o => inferInstanceAs (Decidable (o < h.objects.size))
  | .carrier c => inferInstanceAs (Decidable (c < h.carriers.size))
  | .null | .scalar _ => isTrue trivial

namespace Heap

/-- What is in `h` is in `h'`, and the objects have kept their shapes. -/
structure Grows (h h' : Heap) : Prop where
  objects : ∀ {o i}, h.object? o = some i → ∃ i', h'.object? o = some i' ∧ i'.shape = i.shape
  carriers : h.carriers.size ≤ h'.carriers.size

variable {h h' h'' : Heap} {o a : ObjectId} {c : CarrierId} {k : Nat} {v : Value} {i : Instance}

/-! ## Objects and their fields -/

theorem object?_eq_none_iff : h.object? o = none ↔ h.objects.size ≤ o :=
  Array.getElem?_eq_none_iff

theorem lt_of_object? (ho : h.object? o = some i) : o < h.objects.size :=
  (Array.getElem?_eq_some_iff.mp ho).1

theorem exists_object? (ho : o < h.objects.size) : ∃ i, h.object? o = some i :=
  ⟨h.objects[o], Array.getElem?_eq_getElem ho⟩

theorem field?_eq_some_iff :
    h.field? o k = some v ↔ ∃ i, h.object? o = some i ∧ i.fields[k]? = some v :=
  Option.bind_eq_some_iff

theorem lt_of_field? (hf : h.field? o k = some v) : o < h.objects.size := by
  obtain ⟨i, ho, -⟩ := field?_eq_some_iff.mp hf
  exact lt_of_object? ho

/-- Fields of an object are fields of the object alone. -/
theorem field?_congr (ho : h'.object? o = h.object? o) : h'.field? o k = h.field? o k := by
  rw [field?, field?, ho]

theorem isByValue_object : h.isByValue (.object o) = true ↔
    ∃ i, h.object? o = some i ∧ i.byValue = true := by
  simp only [isByValue]
  cases h.object? o <;> simp

theorem isByValue_congr (ho : h'.object? o = h.object? o) :
    h'.isByValue (.object o) = h.isByValue (.object o) := by
  rw [isByValue, isByValue, ho]

/-- Only objects are held by value. -/
theorem exists_of_isByValue (hv : h.isByValue v = true) :
    ∃ o i, v = .object o ∧ h.object? o = some i ∧ i.byValue = true := by
  cases v with
  | object o =>
    obtain ⟨i, ho, hi⟩ := isByValue_object.mp hv
    exact ⟨o, i, rfl, ho, hi⟩
  | null => cases hv
  | scalar x => cases hv
  | carrier c => cases hv

/-! ## Growth -/

theorem Grows.refl (h : Heap) : h.Grows h := ⟨fun ho => ⟨_, ho, rfl⟩, Nat.le_refl _⟩

theorem Grows.trans (hg : h.Grows h') (hg' : h'.Grows h'') : h.Grows h'' where
  objects ho := by
    obtain ⟨i', ho', hi'⟩ := hg.objects ho
    obtain ⟨i'', ho'', hi''⟩ := hg'.objects ho'
    exact ⟨i'', ho'', hi''.trans hi'⟩
  carriers := Nat.le_trans hg.carriers hg'.carriers

/-- An object keeps its slots. -/
theorem Grows.exists_field? (hg : h.Grows h') (hv : h.field? o k = some v) :
    ∃ v', h'.field? o k = some v' := by
  obtain ⟨i, hi, hk⟩ := field?_eq_some_iff.mp hv
  obtain ⟨i', hi', hs⟩ := hg.objects hi
  have hlength : i'.fields.length = i.fields.length := congrArg Shape.size hs
  have hlt : k < i'.fields.length := hlength ▸ (List.getElem?_eq_some_iff.mp hk).1
  exact ⟨i'.fields[k], field?_eq_some_iff.mpr ⟨i', hi', List.getElem?_eq_getElem hlt⟩⟩

theorem Grows.size_le (hg : h.Grows h') : h.objects.size ≤ h'.objects.size := by
  by_contra hlt
  obtain ⟨i, hi⟩ := exists_object? (Nat.lt_of_not_le hlt)
  obtain ⟨i', hi', -⟩ := hg.objects hi
  exact Nat.lt_irrefl _ (lt_of_object? hi')

end Heap

theorem Value.Known.of_isLiteral {h : Heap} {v : Value} (hv : v.isLiteral = true) : v.Known h := by
  cases v with
  | null => trivial
  | scalar s => trivial
  | object o => cases hv
  | carrier c => cases hv

theorem Value.Known.mono {h h' : Heap} {v : Value} (hg : h.Grows h') (hv : v.Known h) :
    v.Known h' := by
  cases v with
  | object o => exact Nat.lt_of_lt_of_le hv hg.size_le
  | carrier c => exact Nat.lt_of_lt_of_le hv hg.carriers
  | null => trivial
  | scalar x => trivial

namespace Heap

variable {h h' : Heap} {v : Value}

/-- Whether a known value is held by value does not change. -/
theorem Grows.isByValue_eq (hg : h.Grows h') (hv : v.Known h) :
    h'.isByValue v = h.isByValue v := by
  cases v with
  | object o =>
    obtain ⟨i, hi⟩ := exists_object? hv
    obtain ⟨i', hi', hs⟩ := hg.objects hi
    have hb : i'.byValue = i.byValue := congrArg Shape.byValue hs
    simp only [isByValue, hi, hi', Option.any_some, hb]
  | carrier c => rfl
  | null => rfl
  | scalar x => rfl

end Heap

end RecordForge
