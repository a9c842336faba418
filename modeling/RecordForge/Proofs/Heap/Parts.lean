import Mathlib.Logic.Relation
import RecordForge.Proofs.Heap.Copies

/-!
# Parts

The parts of an object are the object itself, what its fields hold by value, what the fields of those
hold by value, and so on. In a tidy heap an object is no part of a part of it, and the object that
holds it by value is one alone. So the parts of an object are a tree, which can be entered through its
root only: whoever reads fields from outside of it, at any depth, and not the field that holds the root,
does not come to a part (`Tidy.outside_of_reaches`).

Objects are not taken into fields later: a field that holds an object by value has been given a copy
that is new (`Heap.Loosens`). So what is there once stays outside of all that is stored from then on.
-/

namespace RecordForge.Heap

open Relation (ReflTransGen TransGen)

/-- A field of an object holds another object by value. -/
def Holds (h : Heap) (a b : ObjectId) : Prop :=
  ∃ k, h.field? a k = some (.object b) ∧ h.isByValue (.object b) = true

/-- An object is reached from another one through fields that hold objects by value. -/
def HasPart (h : Heap) : ObjectId → ObjectId → Prop := ReflTransGen h.Holds

/-- An object is no part of a value that is held by value. -/
def Outside (h : Heap) (v : Value) (x : ObjectId) : Prop :=
  ∀ y, v = .object y → h.isByValue v = true → ¬h.HasPart y x

/-- An object is part of a value that is held by value. -/
def Inside (h : Heap) (v : Value) (x : ObjectId) : Prop :=
  ∃ y, v = .object y ∧ h.isByValue v = true ∧ h.HasPart y x

/-- All that is inside of a value is as it was. -/
def Retains (h h' : Heap) (v : Value) : Prop :=
  ∀ y i, h.Inside v y → h.object? y = some i → h'.object? y = some i

/-- An object is reached from another one by reading fields, other than the one in a slot of `o`. -/
def Reaches (h : Heap) (o : ObjectId) (s : Nat) : ObjectId → ObjectId → Prop :=
  ReflTransGen fun a b => ∃ k, ¬(a = o ∧ k = s) ∧ h.field? a k = some (.object b)

variable {h h' h'' : Heap} {a b o x y r : ObjectId} {k s : Nat} {v c u : Value} {vs : List Value}

/-! ## Trees -/

/-- What is not held by value is outside of every value. -/
theorem outside_of_shared (hx : h.isByValue (.object x) = false) : h.Outside v x := by
  rintro y rfl hb hp
  rcases ReflTransGen.cases_tail hp with rfl | ⟨b, -, k, -, hbx⟩
  · rw [hb] at hx
    cases hx
  · rw [hbx] at hx
    cases hx

/-- An object that no field holds is outside of what fields hold. -/
theorem outside_of_loose (hc : h.field? o s = some c) (hx : h.Loose x) : h.Outside c x := by
  rintro y rfl - hp
  rcases ReflTransGen.cases_tail hp with rfl | ⟨b, -, k, hf, -⟩
  · exact hx o s hc
  · exact hx b k hf

namespace Tidy

variable (ht : h.Tidy)
include ht

theorem lt_of_holds (hab : h.Holds a b) : a < b := by
  obtain ⟨k, hf, hb⟩ := hab
  exact ht.ordered hf hb

/-- Parts come after what they are parts of. -/
theorem le_of_hasPart (hp : h.HasPart a b) : a ≤ b := by
  induction hp with
  | refl => exact Nat.le_refl a
  | tail _ hbc ih => exact Nat.le_trans ih (Nat.le_of_lt (ht.lt_of_holds hbc))

/-- No object is held within itself. -/
theorem not_transGen_holds (x : ObjectId) : ¬TransGen h.Holds x x := by
  intro hx
  obtain ⟨y, hxy, hyx⟩ := TransGen.head'_iff.mp hx
  exact Nat.lt_irrefl x (Nat.lt_of_lt_of_le (ht.lt_of_holds hxy) (ht.le_of_hasPart hyx))

/-- A part of an object is held by a part of it, unless it is the object. -/
theorem hasPart_holder (hp : h.HasPart y x) (hf : h.field? a k = some (.object x))
    (hb : h.isByValue (.object x) = true) : x = y ∨ h.HasPart y a := by
  rcases ReflTransGen.cases_tail hp with rfl | ⟨b, hyb, j, hj, -⟩
  · exact .inl rfl
  · obtain ⟨rfl, -⟩ := ht.separate hf hj hb
    exact .inr hyb

/-- **Reading fields from outside of a value stays outside**, if it passes by the field that holds the
value. -/
theorem outside_of_reaches (hc : h.field? o s = some c) (hr : h.Outside c r)
    (hx : h.Reaches o s r x) : h.Outside c x := by
  induction hx with
  | refl => exact hr
  | @tail a b _ hab ih =>
    obtain ⟨k, hne, hf⟩ := hab
    cases hb : h.isByValue (.object b) with
    | false => exact outside_of_shared hb
    | true =>
      rintro y rfl hby hp
      rcases ht.hasPart_holder hp hf hb with rfl | hya
      -- the root is held in one slot only
      · exact hne (ht.separate hf hc hb)
      · exact ih y rfl hby hya

end Tidy

/-! ## Contents -/

theorem Outside.not_inside (hx : h.Outside v x) : ¬h.Inside v x :=
  fun ⟨y, he, hb, hp⟩ => hx y he hb hp

namespace Inside

/-- What is inside of a value is held by value. -/
theorem isByValue (hx : h.Inside v x) : h.isByValue (.object x) = true := by
  obtain ⟨y, rfl, hb, hp⟩ := hx
  rcases ReflTransGen.cases_tail hp with rfl | ⟨a, -, k, -, hbx⟩
  · exact hb
  · exact hbx

/-- What is held by something inside is inside. -/
theorem field (ha : h.Inside v a) (hf : h.field? a k = some (.object x))
    (hb : h.isByValue (.object x) = true) : h.Inside v x := by
  obtain ⟨y, he, hy, hp⟩ := ha
  exact ⟨y, he, hy, hp.tail ⟨k, hf, hb⟩⟩

/-- What is inside of a value stays inside while all of it is as it was. -/
theorem of_retains (hx : h.Inside v x) (hr : h.Retains h' v) : h'.Inside v x := by
  have hbyValue : ∀ {z}, h.Inside v z → h'.isByValue (.object z) = true := by
    intro z hz
    obtain ⟨i, hi, hb⟩ := isByValue_object.mp hz.isByValue
    exact isByValue_object.mpr ⟨i, hr z i hz hi, hb⟩
  obtain ⟨y, rfl, hb, hp⟩ := hx
  have hroot : h.Inside (.object y) y := ⟨y, rfl, hb, .refl⟩
  -- along the chain from the value to its part
  induction hp with
  | refl => exact ⟨y, rfl, hbyValue hroot, .refl⟩
  | @tail a c hac hc ih =>
    obtain ⟨k, hf, hbc⟩ := hc
    have ha : h.Inside (.object y) a := ⟨y, rfl, hb, hac⟩
    obtain ⟨i, hi, -⟩ := field?_eq_some_iff.mp hf
    have hf' : h'.field? a k = some (.object c) := by
      rw [field?_congr ((hr a i ha hi).trans hi.symm)]
      exact hf
    exact ih.field hf' (hbyValue (ha.field hf hbc))

end Inside

theorem Retains.refl (h : Heap) (v : Value) : h.Retains h v := fun _ _ _ hi => hi

theorem Retains.trans (hr : h.Retains h' v) (hr' : h'.Retains h'' v) : h.Retains h'' v :=
  fun y i hy hi => hr' y i (hy.of_retains hr) (hr y i hy hi)

/-- **A value keeps its contents while all that is inside of it is as it was.** -/
theorem Retains.alike (hr : h.Retains h' v) (ht : h.Tidy) (hg : h.Grows h') (hv : v.Known h) :
    h.Alike h' v v :=
  alike_of_spares ht (fun hy hi => hr _ _ hy hi) (fun hi _ => hg.objects hi) Inside.field hv
    fun y he hb => ⟨y, he, hb, .refl⟩

/-- So it is while something else is overwritten. -/
theorem Overwrites.retains {P : Nat → Prop} (hw : h.Overwrites h' x P) (hx : h.Outside v x) :
    h.Retains h' v := by
  intro y i hy hi
  refine hw.others ?_ hi
  rintro rfl
  exact hx.not_inside hy

/-- **A value keeps its contents while no part of it is overwritten.** -/
theorem Overwrites.alike_of_outside {P : Nat → Prop} (hw : h.Overwrites h' x P) (ht : h.Tidy)
    (hv : v.Known h) (hx : h.Outside v x) : h.Alike h' v v :=
  (hw.retains hx).alike ht hw.grows hv

/-! ## Objects that come loose -/

/-- The heap has grown, and what a field holds by value now and was there before was held by the same
field before. -/
structure Loosens (h h' : Heap) : Prop where
  grows : h.Grows h'
  held : ∀ {y a : ObjectId} {k : Nat}, y < h.objects.size → h'.isByValue (.object y) = true →
    h'.field? a k = some (.object y) → h.field? a k = some (.object y)

namespace Loosens

theorem refl (h : Heap) : h.Loosens h := ⟨.refl h, fun _ _ hf => hf⟩

theorem trans (hl : h.Loosens h') (hl' : h'.Loosens h'') : h.Loosens h'' := by
  refine ⟨hl.grows.trans hl'.grows, fun {y a k} hy hb hf => ?_⟩
  have hy' : y < h'.objects.size := Nat.lt_of_lt_of_le hy hl.grows.size_le
  have hb' : h'.isByValue (.object y) = true := by
    rwa [← hl'.grows.isByValue_eq (v := .object y) hy']
  exact hl.held hy hb' (hl'.held hy' hb hf)

/-- Nothing comes to be held where objects stay as they are. -/
theorem of_objects (hg : h.Grows h') (ho : h'.objects = h.objects) : h.Loosens h' := by
  refine ⟨hg, fun {y a k} _ _ hf => ?_⟩
  have hsame : h'.object? a = h.object? a := by rw [object?, object?, ho]
  rwa [field?_congr hsame] at hf

/-- New objects hold no old ones by value. -/
theorem of_yields (hy : h.Yields h' vs) : h.Loosens h' := by
  refine ⟨hy.grows, fun {y a k} hlt hb hf => ?_⟩
  have ha : a < h.objects.size := Nat.lt_trans (hy.tidy.ordered hf hb) hlt
  rwa [hy.field?_eq ha] at hf

/-- What is stored is new if it is held by value. -/
theorem of_store (ht : h.Tidy) (hv : v.Known h) (hs : h.store o s v = some h') : h.Loosens h' := by
  obtain ⟨i, hi, hk, rfl⟩ := store_eq_some_iff.mp hs
  obtain ⟨hyields, -⟩ := assign_spec ht hv
  have hi' : (h.assign v).2.object? o = some i := hyields.old hi
  refine ⟨hyields.grows.trans (put_grows ..), fun {y a k} hlt hb hf => ?_⟩
  rw [isByValue_put] at hb
  rw [field?_put hi' hk] at hf
  split at hf
  · have hmem : .object y ∈ [(h.assign v).1] := by
      rw [Option.some.inj hf]
      exact List.mem_singleton.mpr rfl
    exact absurd (hyields.new y hmem hb) (Nat.not_le_of_lt hlt)
  · exact (of_yields hyields).held hlt hb hf

/-- An object that no field holds by value stays so. -/
theorem loose (hl : h.Loosens h') (hx : h.Loose x) (hlt : x < h.objects.size)
    (hb : h.isByValue (.object x) = true) : h'.Loose x := by
  intro a k hf
  have hb' : h'.isByValue (.object x) = true := by
    rwa [hl.grows.isByValue_eq (v := .object x) hlt]
  exact hx a k (hl.held hlt hb' hf)

end Loosens

/-- A store changes no carrier. -/
theorem store_carriers (hs : h.store o s v = some h') : h'.carriers = h.carriers := by
  obtain ⟨i, -, -, rfl⟩ := store_eq_some_iff.mp hs
  exact (assign_adds h v).1.carriers

/-- What has been stored is new if it is held by value. -/
theorem store_new (ht : h.Tidy) (hv : v.Known h) (hs : h.store o s v = some h')
    (hf : h'.field? o s = some (.object y)) (hb : h'.isByValue (.object y) = true) :
    h.objects.size ≤ y := by
  obtain ⟨i, hi, hk, rfl⟩ := store_eq_some_iff.mp hs
  obtain ⟨hyields, -⟩ := assign_spec ht hv
  have hi' : (h.assign v).2.object? o = some i := hyields.old hi
  rw [isByValue_put] at hb
  rw [field?_put hi' hk, if_pos ⟨rfl, rfl⟩] at hf
  refine hyields.new y ?_ hb
  rw [Option.some.inj hf]
  exact List.mem_singleton.mpr rfl

/-- **What was there before a value was stored is outside of what the field holds**, now and later. -/
theorem Loosens.outside_of_store (hl : h'.Loosens h'') (ht : h.Tidy) (ht'' : h''.Tidy)
    (hv : v.Known h) (hs : h.store o s v = some h') (hc : h''.field? o s = some c)
    (hx : x < h.objects.size) : h''.Outside c x := by
  rintro y rfl hb hp
  have hy : y < h.objects.size := Nat.lt_of_le_of_lt (ht''.le_of_hasPart hp) hx
  have hy' : y < h'.objects.size := Nat.lt_of_lt_of_le hy (store_grows hs).size_le
  have hb' : h'.isByValue (.object y) = true := by
    rwa [← hl.grows.isByValue_eq (v := .object y) hy']
  exact Nat.not_le_of_lt hy (store_new ht hv hs (hl.held hy' hb hc) hb')

end RecordForge.Heap
