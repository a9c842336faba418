import RecordForge.Proofs.Heap.Basic

/-!
# What the operations of the heap do

Placing a blank, allocating an object and copying one only *add* to a heap: the objects that are
there stay as they are, and what the new ones hold is new too, or means the same in every heap, or is
held by an object that was there (`Heap.Adds`). Storing a value adds a copy if one is needed, and then
puts a value into one slot of one object.

Blanks and copies are nested, so their lemmas follow the recursion of `Heap.place` and of
`Heap.copyTo`; in between, the object that is being filled has no fields yet.
-/

namespace RecordForge

/-- A value that an operation from `h` to `h'` may put somewhere: one that means the same in every
heap, a new object, or a value that an object of `h` holds. -/
inductive Value.Stems (h h' : Heap) : Value → Prop
  | literal {v : Value} (hv : v.isLiteral = true) : Stems h h' v
  | new {o : ObjectId} (hlo : h.objects.size ≤ o) (hhi : o < h'.objects.size) : Stems h h' (.object o)
  | held {o : ObjectId} {i : Instance} {v : Value} (ho : h.object? o = some i) (hv : v ∈ i.fields) :
      Stems h h' v

theorem Value.Stems.mono {h h' h'' : Heap} {v : Value} (hv : v.Stems h h')
    (hs : h'.objects.size ≤ h''.objects.size) : v.Stems h h'' := by
  cases hv with
  | literal hv => exact .literal hv
  | new hlo hhi => exact .new hlo (Nat.lt_of_lt_of_le hhi hs)
  | held ho hv => exact .held ho hv

/-- The classes of the objects that a blank needs satisfy `C`. -/
inductive Blank.All (C : ClassId → Prop) : Blank → Prop
  | null : All C .null
  | scalar (s : Scalar) : All C (.scalar s)
  | record {c : ClassId} {bs : List Blank} (hc : C c) (hbs : ∀ b ∈ bs, All C b) : All C (.record c bs)

theorem Blank.all_true (b : Blank) : b.All fun _ => True := by
  cases b with
  | null => exact .null
  | scalar s => exact .scalar s
  | record c bs => exact .record trivial fun b _ => Blank.all_true b
termination_by sizeOf b

namespace Heap

/-- `h'` has the objects of `h` and further ones, whose classes satisfy `C` or are classes of
objects of `h`. -/
structure Adds (C : ClassId → Prop) (h h' : Heap) : Prop where
  old : ∀ {o i}, h.object? o = some i → h'.object? o = some i
  carriers : h'.carriers = h.carriers
  classes : ∀ {o i}, h.objects.size ≤ o → h'.object? o = some i →
    C i.cls ∨ ∃ o₀ i₀, h.object? o₀ = some i₀ ∧ i₀.cls = i.cls
  fields : ∀ {o i}, h.objects.size ≤ o → h'.object? o = some i → ∀ v ∈ i.fields, v.Stems h h'

variable {C : ClassId → Prop} {h h' h'' : Heap} {o o' : ObjectId} {i : Instance} {v : Value}
variable {vs : List Value} {k : Nat} {cls : ClassId} {byValue : Bool}

/-! ## Adding -/

theorem Adds.grows (ha : h.Adds C h') : h.Grows h' :=
  ⟨fun ho => ⟨_, ha.old ho, rfl⟩, Nat.le_of_eq (by rw [ha.carriers])⟩

theorem Adds.size_le (ha : h.Adds C h') : h.objects.size ≤ h'.objects.size := ha.grows.size_le

theorem Adds.refl (h : Heap) : h.Adds C h where
  old := id
  carriers := rfl
  classes hlo ho := absurd (lt_of_object? ho) (Nat.not_lt_of_le hlo)
  fields hlo ho := absurd (lt_of_object? ho) (Nat.not_lt_of_le hlo)

/-- What stems from a later heap stems from an earlier one. -/
theorem Adds.stems (ha : h.Adds C h') (hs : h'.objects.size ≤ h''.objects.size)
    (hv : v.Stems h' h'') : v.Stems h h'' := by
  cases hv with
  | literal hv => exact .literal hv
  | new hlo hhi => exact .new (Nat.le_trans ha.size_le hlo) hhi
  | @held o i _ ho hv =>
    by_cases hold : o < h.objects.size
    · obtain ⟨i₀, hi₀⟩ := exists_object? hold
      obtain rfl := Option.some.inj ((ha.old hi₀).symm.trans ho)
      exact .held hi₀ hv
    · cases ha.fields (Nat.le_of_not_lt hold) ho v hv with
      | literal hv => exact .literal hv
      | new hlo hhi => exact .new hlo (Nat.lt_of_lt_of_le hhi hs)
      | held ho hv => exact .held ho hv

theorem Adds.trans (ha : h.Adds C h') (ha' : h'.Adds C h'') : h.Adds C h'' where
  old ho := ha'.old (ha.old ho)
  carriers := ha'.carriers.trans ha.carriers
  classes {o i} hlo ho := by
    -- the object comes with the first operation or with the second
    by_cases hnew : h'.objects.size ≤ o
    · rcases ha'.classes hnew ho with hc | ⟨o₀, i₀, ho₀, hc⟩
      · exact .inl hc
      · by_cases hold : o₀ < h.objects.size
        · obtain ⟨i₁, hi₁⟩ := exists_object? hold
          obtain rfl := Option.some.inj ((ha.old hi₁).symm.trans ho₀)
          exact .inr ⟨o₀, i₁, hi₁, hc⟩
        · rw [← hc]
          exact ha.classes (Nat.le_of_not_lt hold) ho₀
    · obtain ⟨i₁, hi₁⟩ := exists_object? (Nat.lt_of_not_le hnew)
      obtain rfl := Option.some.inj ((ha'.old hi₁).symm.trans ho)
      exact ha.classes hlo hi₁
  fields {o i} hlo ho v hv := by
    by_cases hnew : h'.objects.size ≤ o
    · exact ha.stems ha'.size_le (ha'.fields hnew ho v hv)
    · obtain ⟨i₁, hi₁⟩ := exists_object? (Nat.lt_of_not_le hnew)
      obtain rfl := Option.some.inj ((ha'.old hi₁).symm.trans ho)
      exact (ha.fields hlo hi₁ v hv).mono ha'.size_le

/-! ## One new object -/

theorem object?_reserve (h : Heap) (cls : ClassId) (byValue : Bool) (o : ObjectId) :
    (h.reserve cls byValue).2.object? o =
      if o = h.objects.size then some ⟨cls, byValue, []⟩ else h.object? o := by
  show (h.objects.push _)[o]? = _
  rw [Array.getElem?_push]
  rfl

theorem size_reserve (h : Heap) (cls : ClassId) (byValue : Bool) :
    (h.reserve cls byValue).2.objects.size = h.objects.size + 1 := Array.size_push _

/-- Changing one object leaves the others as they are. -/
theorem object?_modify (h : Heap) (o : ObjectId) (f : Instance → Instance) (o' : ObjectId) :
    (Heap.object? { h with objects := h.objects.modify o f } o') =
      if o' = o then (h.object? o).map f else h.object? o' := by
  show (h.objects.modify o f)[o']? = _
  rw [Array.getElem?_modify]
  by_cases he : o' = o
  · rw [if_pos he, if_pos he.symm, he]; rfl
  · rw [if_neg he, if_neg (Ne.symm he)]; rfl

theorem object?_fill (h : Heap) (o : ObjectId) (fields : List Value) (o' : ObjectId) :
    (h.fill o fields).object? o' =
      if o' = o then (h.object? o).map fun i => { i with fields } else h.object? o' :=
  h.object?_modify o _ o'

theorem size_fill (h : Heap) (o : ObjectId) (fields : List Value) :
    (h.fill o fields).objects.size = h.objects.size := Array.size_modify ..

theorem object?_put (h : Heap) (o : ObjectId) (k : Nat) (v : Value) (o' : ObjectId) :
    (h.put o k v).object? o' =
      if o' = o then (h.object? o).map fun i => { i with fields := i.fields.set k v }
      else h.object? o' :=
  h.object?_modify o _ o'

theorem size_put (h : Heap) (o : ObjectId) (k : Nat) (v : Value) :
    (h.put o k v).objects.size = h.objects.size := Array.size_modify ..

/-- An object that is reserved, then filled once its fields are there. -/
theorem Adds.object (hc : C cls ∨ ∃ o₀ i₀, h.object? o₀ = some i₀ ∧ i₀.cls = cls)
    (ha : (h.reserve cls byValue).2.Adds C h')
    (hvs : ∀ v ∈ vs, v.Stems (h.reserve cls byValue).2 h') :
    h.Adds C (h'.fill h.objects.size vs) ∧
      (h'.fill h.objects.size vs).object? h.objects.size = some ⟨cls, byValue, vs⟩ := by
  have hreserved : (h.reserve cls byValue).2.object? h.objects.size = some ⟨cls, byValue, []⟩ := by
    rw [object?_reserve, if_pos rfl]
  have hreserve : h.Adds C (h.reserve cls byValue).2 := by
    refine ⟨fun {o i} ho => ?_, rfl, fun {o i} hlo ho => ?_, fun {o i} hlo ho => ?_⟩
    · rw [object?_reserve, if_neg (Nat.ne_of_lt (lt_of_object? ho)), ho]
    all_goals
      rw [object?_reserve] at ho
      split at ho
      · obtain rfl := Option.some.inj ho
        first
          | exact hc
          | intro v hv; cases hv
      · exact absurd (lt_of_object? ho) (Nat.not_lt_of_le hlo)
  have hall := hreserve.trans ha
  have hsize : h'.objects.size ≤ (h'.fill h.objects.size vs).objects.size :=
    Nat.le_of_eq (size_fill ..).symm
  have hself : h'.object? h.objects.size = some ⟨cls, byValue, []⟩ := ha.old hreserved
  refine ⟨⟨fun {o i} ho => ?_, hall.carriers, fun {o i} hlo ho => ?_, fun {o i} hlo ho => ?_⟩, ?_⟩
  · rw [object?_fill, if_neg (Nat.ne_of_lt (lt_of_object? ho))]
    exact hall.old ho
  · rw [object?_fill, hself] at ho
    split at ho
    · obtain rfl := Option.some.inj ho
      exact hc
    · exact hall.classes hlo ho
  · rw [object?_fill, hself] at ho
    split at ho
    · obtain rfl := Option.some.inj ho
      exact fun v hv => (hreserve.stems ha.size_le (hvs v hv)).mono hsize
    · exact fun v hv => (hall.fields hlo ho v hv).mono hsize
  · rw [object?_fill, if_pos rfl, hself]
    rfl

/-! ## Blanks -/

mutual

/-- Placing a blank. -/
theorem place_adds (h : Heap) {b : Blank} (hb : b.All C) :
    h.Adds C (h.place b).2 ∧ (h.place b).1.Stems h (h.place b).2 := by
  cases b with
  | null => exact ⟨.refl h, .literal rfl⟩
  | scalar s => exact ⟨.refl h, .literal rfl⟩
  | record c bs =>
    cases hb with
    | record hc hbs =>
      obtain ⟨ha, hvs⟩ := placeAll_adds (h.reserve c true).2 bs hbs
      obtain ⟨hadds, ho⟩ := Adds.object (.inl hc) ha hvs
      refine ⟨hadds, .new (Nat.le_refl _) ?_⟩
      exact lt_of_object? ho
termination_by sizeOf b

/-- Placing blanks. -/
theorem placeAll_adds (h : Heap) (bs : List Blank) (hbs : ∀ b ∈ bs, b.All C) :
    h.Adds C (h.placeAll bs).2 ∧ ∀ v ∈ (h.placeAll bs).1, v.Stems h (h.placeAll bs).2 := by
  cases bs with
  | nil => exact ⟨.refl h, by intro v hv; cases hv⟩
  | cons b bs =>
    obtain ⟨ha, hv⟩ := place_adds h (hbs b List.mem_cons_self)
    obtain ⟨ha', hvs⟩ := placeAll_adds (h.place b).2 bs fun b hb => hbs b (List.mem_cons_of_mem _ hb)
    refine ⟨ha.trans ha', fun v hm => ?_⟩
    rcases List.mem_cons.mp hm with rfl | hm
    · exact hv.mono ha'.size_le
    · exact ha.stems ha'.size_le (hvs v hm)
termination_by sizeOf bs

end

theorem length_placeAll (h : Heap) (bs : List Blank) :
    (h.placeAll bs).1.length = bs.length := by
  induction bs generalizing h with
  | nil => rfl
  | cons b bs ih => simp only [placeAll, List.length_cons, ih]

/-- A new object has a number of its own, and as many fields as there are blanks. -/
theorem allocate_adds {bs : List Blank} (hc : C cls) (hbs : ∀ b ∈ bs, b.All C) :
    h.Adds C (h.allocate cls byValue bs).2 ∧ (h.allocate cls byValue bs).1 = h.objects.size ∧
      ∃ i, (h.allocate cls byValue bs).2.object? h.objects.size = some i ∧
        i.shape = ⟨cls, byValue, bs.length⟩ := by
  obtain ⟨ha, hvs⟩ := placeAll_adds (h.reserve cls byValue).2 bs hbs
  obtain ⟨hadds, ho⟩ := Adds.object (.inl hc) ha hvs
  refine ⟨hadds, rfl, _, ho, ?_⟩
  simp only [Instance.shape, length_placeAll]

/-! ## Copies -/

/-- What a copying function does to one object. -/
def Copies (copy : Heap → ObjectId → ObjectId × Heap) : Prop :=
  ∀ h o, o < h.objects.size →
    h.Adds (fun _ => False) (copy h o).2 ∧
      ((copy h o).1 = o ∨ (Value.object (copy h o).1).Stems h (copy h o).2)

theorem assignWith_adds {copy : Heap → ObjectId → ObjectId × Heap} (hcopy : Copies copy) (h : Heap)
    (v : Value) :
    h.Adds (fun _ => False) (h.assignWith copy v).2 ∧
      ((h.assignWith copy v).1 = v ∨ (h.assignWith copy v).1.Stems h (h.assignWith copy v).2) := by
  cases v with
  | object o =>
    simp only [assignWith]
    split
    · next hv =>
      obtain ⟨i, ho, -⟩ := isByValue_object.mp hv
      obtain ⟨hadds, hnew⟩ := hcopy h o (lt_of_object? ho)
      exact ⟨hadds, hnew.imp_left (congrArg Value.object)⟩
    · exact ⟨.refl h, .inl rfl⟩
  | null => exact ⟨.refl h, .inl rfl⟩
  | scalar s => exact ⟨.refl h, .inl rfl⟩
  | carrier c => exact ⟨.refl h, .inl rfl⟩

theorem assignAll_adds {copy : Heap → ObjectId → ObjectId × Heap} (hcopy : Copies copy) (h : Heap)
    (vs : List Value) :
    h.Adds (fun _ => False) (h.assignAll copy vs).2 ∧
      ∀ v ∈ (h.assignAll copy vs).1, v ∈ vs ∨ v.Stems h (h.assignAll copy vs).2 := by
  induction vs generalizing h with
  | nil => exact ⟨.refl h, by intro v hv; cases hv⟩
  | cons v vs ih =>
    obtain ⟨ha, hv⟩ := assignWith_adds hcopy h v
    obtain ⟨ha', hvs⟩ := ih (h.assignWith copy v).2
    refine ⟨ha.trans ha', fun u hu => ?_⟩
    rcases List.mem_cons.mp hu with rfl | hu
    · rcases hv with hv | hv
      · have hu : (h.assignWith copy v).1 ∈ v :: vs := by
          rw [hv]
          exact List.mem_cons_self
        exact .inl hu
      · exact .inr (hv.mono ha'.size_le)
    · rcases hvs u hu with hu | hu
      · exact .inl (List.mem_cons_of_mem _ hu)
      · exact .inr (ha.stems ha'.size_le hu)

/-- Copying down to a depth. -/
theorem copyTo_copies (depth : Nat) : Copies (copyTo depth) := by
  induction depth with
  | zero => exact fun h o _ => ⟨.refl h, .inl rfl⟩
  | succ depth ih =>
    intro h o hlt
    obtain ⟨i, ho⟩ := exists_object? hlt
    simp only [copyTo, ho]
    obtain ⟨ha, hvs⟩ := assignAll_adds ih (h.reserve i.cls i.byValue).2 i.fields
    have hold : (h.reserve i.cls i.byValue).2.object? o = some i := by
      rw [object?_reserve, if_neg (Nat.ne_of_lt hlt), ho]
    obtain ⟨hadds, hnew⟩ := Adds.object (.inr ⟨o, i, ho, rfl⟩) ha
      fun v hv => (hvs v hv).elim (.held hold) id
    exact ⟨hadds, .inr (.new (Nat.le_refl _) (lt_of_object? hnew))⟩

/-- Preparing a value to be stored. -/
theorem assign_adds (h : Heap) (v : Value) :
    h.Adds (fun _ => False) (h.assign v).2 ∧
      ((h.assign v).1 = v ∨ (h.assign v).1.Stems h (h.assign v).2) :=
  assignWith_adds (fun h o => copyTo_copies h.objects.size h o) h v

/-- A value that is not held by value is stored as it is. -/
theorem assignWith_of_not_isByValue {copy : Heap → ObjectId → ObjectId × Heap}
    (hv : h.isByValue v = false) : h.assignWith copy v = (v, h) := by
  cases v with
  | object o => simp only [assignWith, hv, Bool.false_eq_true, if_false]
  | null => rfl
  | scalar s => rfl
  | carrier c => rfl

/-- An object that is held by value is copied to be stored. -/
theorem assignWith_of_isByValue {copy : Heap → ObjectId → ObjectId × Heap} {o : ObjectId}
    (ho : h.isByValue (.object o) = true) :
    h.assignWith copy (.object o) = (.object (copy h o).1, (copy h o).2) := by
  simp only [assignWith, ho, if_true]

theorem assign_of_not_isByValue (hv : h.isByValue v = false) : h.assign v = (v, h) :=
  assignWith_of_not_isByValue hv

/-! ## Storing -/

/-- Storing puts the prepared value into a slot that is there. -/
theorem store_eq_some_iff :
    h.store o k v = some h' ↔
      ∃ i, h.object? o = some i ∧ k < i.fields.length ∧
        h' = (h.assign v).2.put o k (h.assign v).1 := by
  simp only [store]
  cases h.object? o with
  | none => simp
  | some i =>
    by_cases hk : k < i.fields.length
    · simp [hk, eq_comm]
    · simp [hk]

/-- Putting a value into a slot keeps all shapes. -/
theorem put_grows (h : Heap) (o : ObjectId) (k : Nat) (v : Value) : h.Grows (h.put o k v) := by
  refine ⟨fun {o' i} ho => ?_, Nat.le_refl _⟩
  rw [object?_put]
  split
  · next he =>
    subst he
    rw [ho]
    exact ⟨_, rfl, by simp only [Instance.shape, List.length_set]⟩
  · exact ⟨i, ho, rfl⟩

theorem store_grows (hs : h.store o k v = some h') : h.Grows h' := by
  obtain ⟨i, -, -, rfl⟩ := store_eq_some_iff.mp hs
  exact (assign_adds h v).1.grows.trans (put_grows _ _ _ _)

/-! ## Carriers -/

theorem newCarrier_grows (h : Heap) : h.Grows h.newCarrier.2 :=
  ⟨fun ho => ⟨_, ho, rfl⟩, (Array.size_push (α := Option (List Value)) none).symm ▸ Nat.le_succ _⟩

theorem setParameters_grows (h : Heap) (c : CarrierId) (values : Option (List Value)) :
    h.Grows (h.setParameters c values) :=
  ⟨fun ho => ⟨_, ho, rfl⟩, Nat.le_of_eq Array.size_setIfInBounds.symm⟩

section
variable {values : Option (List Value)} {c c' : CarrierId}

theorem parameters?_newCarrier (hc : c < h.carriers.size) :
    h.newCarrier.2.parameters? c = h.parameters? c := by
  simp only [parameters?, newCarrier, Array.getElem?_push, if_neg (Nat.ne_of_lt hc)]

theorem parameters?_newCarrier_self (h : Heap) :
    h.newCarrier.2.parameters? h.carriers.size = none := by
  simp [parameters?, newCarrier]

theorem parameters?_setParameters_self (hc : c < h.carriers.size) :
    (h.setParameters c values).parameters? c = values := by
  simp [parameters?, setParameters, hc]

theorem parameters?_setParameters_of_ne (hne : c ≠ c') :
    (h.setParameters c values).parameters? c' = h.parameters? c' := by
  simp only [parameters?, setParameters, Array.getElem?_setIfInBounds_ne hne]

theorem parameters?_setParameters_none : (h.setParameters c none).parameters? c = none := by
  simp only [parameters?, setParameters, Array.getElem?_setIfInBounds, if_true]
  split <;> rfl

end

end Heap

end RecordForge
