import RecordForge.Proofs.Heap.Equality

/-!
# Copying step by step

`Heap.Duplicates` says how an object is copied step by step: its fields are prepared one after the other,
and what they hold by value is copied in turn. No depth bounds that. In a tidy heap each copy comes to an
end, and ends as `Heap.copy` says (`Heap.duplicates_iff`); so the depth that bounds the latter is never
reached, and what is prepared to be stored is that of `Heap.assign` (`Heap.prepares_iff`).

The copy of an object and the object have no part in common (`Heap.copy_apart`): the parts of the one are
new, and those of the other are old.
-/

namespace RecordForge.Heap

mutual

/-- An object is copied, and this ends with the copy and a heap. -/
inductive Duplicates : Heap → ObjectId → ObjectId × Heap → Prop
  | object {h h' : Heap} {o : ObjectId} {i : Instance} {vs : List Value} (hi : h.object? o = some i)
      (hvs : PreparesAll (h.reserve i.cls i.byValue).2 i.fields (vs, h')) :
      Duplicates h o (h.objects.size, h'.fill h.objects.size vs)

/-- A value is prepared to be stored: an object that is held by value is copied, and any other value
is kept. -/
inductive Prepares : Heap → Value → Value × Heap → Prop
  | kept {h : Heap} {v : Value} (hv : h.isByValue v = false) : Prepares h v (v, h)
  | copied {h h' : Heap} {o o' : ObjectId} (ho : h.isByValue (.object o) = true)
      (hcopy : Duplicates h o (o', h')) : Prepares h (.object o) (.object o', h')

/-- Values are prepared to be stored, one after the other. -/
inductive PreparesAll : Heap → List Value → List Value × Heap → Prop
  | nil (h : Heap) : PreparesAll h [] ([], h)
  | cons {h h₁ h₂ : Heap} {v u : Value} {vs us : List Value} (hv : Prepares h v (u, h₁))
      (hvs : PreparesAll h₁ vs (us, h₂)) : PreparesAll h (v :: vs) (u :: us, h₂)

end

/-- Copying an object of the heap `B` that is held by value, and has no smaller number than `n`, ends as
`copy` says, in any later heap in which all objects of `B` are as they were. -/
def Unrolls (B : Heap) (n : Nat) (copy : Heap → ObjectId → ObjectId × Heap) : Prop :=
  ∀ {h : Heap} {o : ObjectId} {r : ObjectId × Heap}, B.Yields h [] → B.isByValue (.object o) = true →
    n ≤ o → (h.Duplicates o r ↔ r = copy h o)

section
variable {B h : Heap} {n : Nat} {copy : Heap → ObjectId → ObjectId × Heap} {v : Value} {vs : List Value}
variable (hB : B.Tidy) (hcopy : B.Faithful n copy) (hunrolls : B.Unrolls n copy)
include hunrolls

/-- Preparing a value. -/
theorem prepares_assignWith_iff (hh : B.Yields h []) (hv : v.Known B)
    (hn : ∀ y, v = .object y → B.isByValue v = true → n ≤ y) {r : Value × Heap} :
    h.Prepares v r ↔ r = h.assignWith copy v := by
  have hbyValue : h.isByValue v = B.isByValue v := hh.grows.isByValue_eq hv
  cases hb : B.isByValue v with
  | false =>
    have hkept : h.isByValue v = false := hbyValue.trans hb
    rw [assignWith_of_not_isByValue hkept]
    constructor
    · intro hr
      cases hr with
      | kept => rfl
      | copied ho =>
        rw [hkept] at ho
        cases ho
    · rintro rfl
      exact .kept hkept
  | true =>
    obtain ⟨o, i, rfl, -, -⟩ := exists_of_isByValue hb
    have ho : h.isByValue (.object o) = true := hbyValue.trans hb
    have hcopied : ∀ {r}, h.Duplicates o r ↔ r = copy h o := hunrolls hh hb (hn o rfl hb)
    rw [assignWith_of_isByValue ho]
    constructor
    · intro hr
      cases hr with
      | kept hkept =>
        rw [ho] at hkept
        cases hkept
      | copied _ hr => rw [← hcopied.mp hr]
    · rintro rfl
      exact .copied ho (hcopied.mpr rfl)

include hB hcopy

/-- Preparing values. -/
theorem preparesAll_assignAll_iff (hh : B.Yields h []) (hvs : ∀ v ∈ vs, v.Known B)
    (hn : ∀ y, .object y ∈ vs → B.isByValue (.object y) = true → n ≤ y) {r : List Value × Heap} :
    h.PreparesAll vs r ↔ r = h.assignAll copy vs := by
  induction vs generalizing h r with
  | nil =>
    constructor
    · rintro ⟨⟩
      rfl
    · rintro rfl
      exact .nil h
  | cons v vs ih =>
    have hknown : v.Known B := hvs v List.mem_cons_self
    have hdeep : ∀ y, v = .object y → B.isByValue v = true → n ≤ y := fun y hy hb =>
      hn y (hy ▸ List.mem_cons_self) (hy ▸ hb)
    have hfirst : ∀ {r}, h.Prepares v r ↔ r = h.assignWith copy v :=
      prepares_assignWith_iff hunrolls hh hknown hdeep
    have hrest : ∀ {r}, (h.assignWith copy v).2.PreparesAll vs r ↔
        r = (h.assignWith copy v).2.assignAll copy vs :=
      ih (hh.after (assignWith_spec hB hcopy hh hknown hdeep).1)
        (fun u hu => hvs u (List.mem_cons_of_mem _ hu)) fun y hy => hn y (List.mem_cons_of_mem _ hy)
    constructor
    · intro hr
      cases hr with
      | @cons _ h₁ _ _ u _ _ hv hvs =>
        have hassign : (u, h₁) = h.assignWith copy v := hfirst.mp hv
        rw [← hassign] at hrest
        rw [assignAll, ← hassign]
        dsimp only
        rw [← hrest.mp hvs]
    · rintro rfl
      exact .cons (hfirst.mpr rfl) (hrest.mpr rfl)

end

section
variable {B h : Heap} {o : ObjectId} {i : Instance} {depth : Nat}

/-- An object is copied as deep as needed if what it holds by value is. -/
theorem duplicates_copyTo_iff (hB : B.Tidy)
    (hunrolls : B.Unrolls (B.objects.size - depth) (copyTo depth)) (hh : B.Yields h [])
    (hi : B.object? o = some i) (hle : B.objects.size - (depth + 1) ≤ o) {r : ObjectId × Heap} :
    h.Duplicates o r ↔ r = copyTo (depth + 1) h o := by
  have hio : h.object? o = some i := hh.old hi
  have hfields : ∀ {r}, (h.reserve i.cls i.byValue).2.PreparesAll i.fields r ↔
      r = (h.reserve i.cls i.byValue).2.assignAll (copyTo depth) i.fields := by
    refine preparesAll_assignAll_iff hB (copyTo_faithful hB depth) hunrolls
      (hh.after (.reserve hh.tidy)) (fun v hv => (hB.fields hi v hv).1) fun y hy hb => ?_
    have hlt : o < y := (hB.fields hi _ hy).2 y rfl hb
    exact Nat.le_trans (by omega) (Nat.succ_le_of_lt hlt)
  simp only [copyTo, hio]
  constructor
  · intro hr
    cases hr with
    | object hi' hvs =>
      obtain rfl := Option.some.inj (hio.symm.trans hi')
      rw [← hfields.mp hvs]
      rfl
  · rintro rfl
    exact .object hio (hfields.mpr rfl)

/-- Copying down to a depth goes as deep as needed for objects that are no deeper. -/
theorem copyTo_unrolls (hB : B.Tidy) (depth : Nat) :
    B.Unrolls (B.objects.size - depth) (copyTo depth) := by
  induction depth with
  | zero =>
    intro h o r _ hb hle
    exact absurd (lt_of_isByValue hb) (Nat.not_lt_of_le hle)
  | succ depth ih =>
    intro h o r hh hb hle
    obtain ⟨i, hi, -⟩ := isByValue_object.mp hb
    exact duplicates_copyTo_iff hB ih hh hi hle

end

variable {h : Heap} {o x : ObjectId} {v : Value}

/-- **Each copy of a known object ends**, as `copy` says. -/
theorem duplicates_iff (ht : h.Tidy) (ho : o < h.objects.size) {r : ObjectId × Heap} :
    h.Duplicates o r ↔ r = h.copy o := by
  obtain ⟨i, hi⟩ := exists_object? ho
  obtain ⟨n, hn⟩ := Nat.exists_eq_succ_of_ne_zero (Nat.ne_zero_of_lt ho)
  rw [copy, hn]
  exact duplicates_copyTo_iff ht (copyTo_unrolls ht n) (.nil ht) hi (by omega)

/-- **Each preparation of a known value ends**, as `assign` says. -/
theorem prepares_iff (ht : h.Tidy) (hv : v.Known h) {r : Value × Heap} :
    h.Prepares v r ↔ r = h.assign v :=
  prepares_assignWith_iff (copyTo_unrolls ht h.objects.size) (.nil ht) hv fun y _ _ => by omega

/-! ## What a copy shares -/

/-- The parts of an object that was there were there, too. -/
theorem Yields.lt_of_hasPart {h' : Heap} {vs : List Value} (hy : h.Yields h' vs) (ht : h.Tidy)
    (ho : o < h.objects.size) (hp : h'.HasPart o x) : x < h.objects.size := by
  induction hp with
  | refl => exact ho
  | tail _ hbc ih =>
    obtain ⟨k, hf, -⟩ := hbc
    rw [hy.field?_eq ih] at hf
    exact ht.known hf

/-- **An object and its copy have no part in common.** -/
theorem copy_apart (ht : h.Tidy) (ho : o < h.objects.size) (hx : (h.copy o).2.HasPart (h.copy o).1 x) :
    ¬(h.copy o).2.HasPart o x := by
  intro hx'
  have hyields := copy_yields ht ho
  have hnew : h.objects.size ≤ (h.copy o).1 := by
    have hr := (duplicates_iff ht ho).mpr rfl
    generalize h.copy o = r at hr
    cases hr with
    | object => exact Nat.le_refl _
  have hle := hyields.tidy.le_of_hasPart hx
  have hlt := hyields.lt_of_hasPart ht ho hx'
  exact Nat.lt_irrefl x (Nat.lt_of_lt_of_le hlt (Nat.le_trans hnew hle))

end RecordForge.Heap
