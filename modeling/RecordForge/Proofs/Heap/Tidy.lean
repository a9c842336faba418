import RecordForge.Proofs.Heap.Storage

/-!
# Tidy heaps

An object that is held by value belongs to the one slot that it is stored in. That is so in a *tidy*
heap: no two slots hold the same object by value, an object comes before those that its fields hold
by value, and nothing refers to what is not there.

Whatever is placed or copied is *loose* at first: no slot holds it yet. `Yields` says this of the
results of an operation, so that they can be stored next. Its lemmas follow the recursion of
`Heap.place`.
-/

namespace RecordForge.Heap

/-- Nothing refers to what is not there, an object comes before those that its fields hold by value,
and no two slots hold the same object by value. -/
structure Tidy (h : Heap) : Prop where
  known : ∀ {o : ObjectId} {k : Nat} {v : Value}, h.field? o k = some v → v.Known h
  ordered : ∀ {o y : ObjectId} {k : Nat}, h.field? o k = some (.object y) →
    h.isByValue (.object y) = true → o < y
  separate : ∀ {o o' y : ObjectId} {k k' : Nat}, h.field? o k = some (.object y) →
    h.field? o' k' = some (.object y) → h.isByValue (.object y) = true → o = o' ∧ k = k'
  parameters : ∀ {c : CarrierId} {vs : List Value}, h.parameters? c = some vs → ∀ v ∈ vs, v.Known h

/-- No slot holds an object. -/
def Loose (h : Heap) (y : ObjectId) : Prop := ∀ o k, h.field? o k ≠ some (.object y)

/-- An operation from `h` to `h'` leaves what is there as it is, and gives values. Those among them that
are held by value are new and loose, and no two of them are the same. -/
structure Yields (h h' : Heap) (vs : List Value) : Prop where
  old : ∀ {o : ObjectId} {i : Instance}, h.object? o = some i → h'.object? o = some i
  carriers : h'.carriers = h.carriers
  tidy : h'.Tidy
  known : ∀ v ∈ vs, v.Known h'
  new : ∀ y, .object y ∈ vs → h'.isByValue (.object y) = true → h.objects.size ≤ y
  loose : ∀ y, .object y ∈ vs → h'.isByValue (.object y) = true → h'.Loose y
  distinct : ∀ {k k' : Nat} {y : ObjectId}, vs[k]? = some (.object y) → vs[k']? = some (.object y) →
    h'.isByValue (.object y) = true → k = k'

variable {h h' h₁ h₂ : Heap} {o y : ObjectId} {k : Nat} {v u : Value}
variable {vs : List Value} {cls : ClassId} {byValue : Bool} {i : Instance}

/-! ## Fields of heaps that change -/

theorem field?_fill (hi : h.object? o = some i) (o' : ObjectId) (k : Nat) :
    (h.fill o vs).field? o' k = if o' = o then vs[k]? else h.field? o' k := by
  rw [field?, object?_fill]
  split
  · rw [hi]
    rfl
  · rfl

theorem field?_put (hi : h.object? o = some i) (hk : k < i.fields.length) (o' : ObjectId) (k' : Nat) :
    (h.put o k v).field? o' k' = if o' = o ∧ k' = k then some v else h.field? o' k' := by
  rw [field?, object?_put]
  by_cases ho : o' = o
  · subst ho
    rw [if_pos rfl, hi, field?, hi]
    by_cases hk' : k' = k
    · subst hk'
      rw [if_pos ⟨rfl, rfl⟩]
      exact List.getElem?_set_self hk
    · rw [if_neg (fun h => hk' h.2)]
      exact List.getElem?_set_ne (Ne.symm hk')
  · rw [if_neg ho, if_neg (fun h => ho h.1)]
    rfl

/-- An object whose fields change is held by value as before. -/
theorem isByValue_of_fields {f : Instance → List Value} (hs : ∀ y, h'.object? y =
    if y = o then (h.object? o).map fun i => { i with fields := f i } else h.object? y) :
    h'.isByValue = h.isByValue := by
  funext v
  cases v with
  | object y =>
    rw [isByValue, hs]
    split
    · next he =>
      subst he
      rw [isByValue]
      cases h.object? y <;> rfl
    · rfl
  | null => rfl
  | scalar s => rfl
  | carrier c => rfl

theorem isByValue_fill (h : Heap) (o : ObjectId) (vs : List Value) :
    (h.fill o vs).isByValue = h.isByValue := isByValue_of_fields (object?_fill h o vs)

theorem isByValue_put (h : Heap) (o : ObjectId) (k : Nat) (u : Value) :
    (h.put o k u).isByValue = h.isByValue := isByValue_of_fields (object?_put h o k u)

/-- What is known depends on the number of objects and of carriers only. -/
theorem known_congr (hs : h'.objects.size = h.objects.size) (hc : h'.carriers = h.carriers) :
    v.Known h' ↔ v.Known h := by
  cases v with
  | object o =>
    show o < h'.objects.size ↔ o < h.objects.size
    rw [hs]
  | carrier c =>
    show c < h'.carriers.size ↔ c < h.carriers.size
    rw [hc]
  | null => exact Iff.rfl
  | scalar s => exact Iff.rfl

/-- The fields of an object are known, and what they hold by value comes after it. -/
theorem Tidy.fields (ht : h.Tidy) (hi : h.object? o = some i) : ∀ v ∈ i.fields, v.Known h ∧
    ∀ y, v = .object y → h.isByValue v = true → o < y := by
  intro v hv
  obtain ⟨k, hk⟩ := List.mem_iff_getElem?.mp hv
  have hf : h.field? o k = some v := field?_eq_some_iff.mpr ⟨i, hi, hk⟩
  refine ⟨ht.known hf, ?_⟩
  rintro y rfl hb
  exact ht.ordered hf hb

theorem lt_of_isByValue (hy : h.isByValue (.object y) = true) : y < h.objects.size := by
  obtain ⟨i, hi, -⟩ := isByValue_object.mp hy
  exact lt_of_object? hi

namespace Yields

theorem grows (hy : h.Yields h' vs) : h.Grows h' :=
  ⟨fun ho => ⟨_, hy.old ho, rfl⟩, Nat.le_of_eq (by rw [hy.carriers])⟩

/-- Objects that were there keep their fields. -/
theorem field?_eq (hy : h.Yields h' vs) (ho : o < h.objects.size) (k : Nat) :
    h'.field? o k = h.field? o k := by
  obtain ⟨i, hi⟩ := exists_object? ho
  exact field?_congr ((hy.old hi).trans hi.symm)

theorem nil (ht : h.Tidy) : h.Yields h [] where
  old := id
  carriers := rfl
  tidy := ht
  known _ hv := nomatch hv
  new _ hy := nomatch hy
  loose _ hy := nomatch hy
  distinct hk := nomatch hk

/-- A value that is not held by value may be given as it is. -/
theorem pure (ht : h.Tidy) (hv : v.Known h) (hb : h.isByValue v = false) : h.Yields h [v] where
  old := id
  carriers := rfl
  tidy := ht
  known u hu := List.mem_singleton.mp hu ▸ hv
  new y hy hby := by
    rw [List.mem_singleton.mp hy, hb] at hby
    cases hby
  loose y hy hby := by
    rw [List.mem_singleton.mp hy, hb] at hby
    cases hby
  distinct hk hk' _ := by
    have hlt := (List.getElem?_eq_some_iff.mp hk).1
    have hlt' := (List.getElem?_eq_some_iff.mp hk').1
    rw [List.length_singleton] at hlt hlt'
    omega

/-- One value after the other. -/
theorem cons (hv : h.Yields h₁ [v]) (hvs : h₁.Yields h₂ vs) : h.Yields h₂ (v :: vs) := by
  have hhead : v.Known h₁ := hv.known v (List.mem_singleton.mpr rfl)
  have hbyValue : h₂.isByValue v = h₁.isByValue v := hvs.grows.isByValue_eq hhead
  have hsize : h.objects.size ≤ h₁.objects.size := hv.grows.size_le
  -- a later value comes after the first
  have hlater : ∀ {y}, v = .object y → .object y ∈ vs → h₂.isByValue (.object y) = true → False := by
    rintro y rfl hy hb
    exact Nat.lt_irrefl _ (Nat.lt_of_lt_of_le hhead (hvs.new y hy hb))
  refine ⟨fun ho => hvs.old (hv.old ho), hvs.carriers.trans hv.carriers, hvs.tidy, fun u hu => ?_,
    fun y hy hb => ?_, fun y hy hb => ?_, fun {k k' y} hk hk' hb => ?_⟩
  · rcases List.mem_cons.mp hu with rfl | hu
    · exact hhead.mono hvs.grows
    · exact hvs.known u hu
  · rcases List.mem_cons.mp hy with rfl | hy
    · exact hv.new y (List.mem_singleton.mpr rfl) (hbyValue ▸ hb)
    · exact Nat.le_trans hsize (hvs.new y hy hb)
  · rcases List.mem_cons.mp hy with rfl | hy
    · intro o k hf
      have hlt : o < h₁.objects.size := Nat.lt_trans (hvs.tidy.ordered hf hb) hhead
      rw [hvs.field?_eq hlt] at hf
      exact hv.loose y (List.mem_singleton.mpr rfl) (hbyValue ▸ hb) o k hf
    · exact hvs.loose y hy hb
  · cases k with
    | zero =>
      obtain rfl := Option.some.inj hk
      cases k' with
      | zero => rfl
      | succ k' => exact (hlater rfl (List.mem_of_getElem? hk') hb).elim
    | succ k =>
      cases k' with
      | zero =>
        obtain rfl := Option.some.inj hk'
        exact (hlater rfl (List.mem_of_getElem? hk) hb).elim
      | succ k' => exact congrArg Nat.succ (hvs.distinct hk hk' hb)

end Yields

/-! ## One new object -/

/-- A new object without fields makes no difference. -/
theorem Tidy.reserve (ht : h.Tidy) : (h.reserve cls byValue).2.Tidy := by
  have hfield : ∀ {o k v}, (h.reserve cls byValue).2.field? o k = some v → h.field? o k = some v := by
    intro o k v hf
    obtain ⟨i, hi, hv⟩ := field?_eq_some_iff.mp hf
    rw [object?_reserve] at hi
    split at hi
    · obtain rfl := Option.some.inj hi
      cases hv
    · exact field?_eq_some_iff.mpr ⟨i, hi, hv⟩
  have hbyValue : ∀ {o k y}, h.field? o k = some (.object y) →
      (h.reserve cls byValue).2.isByValue (.object y) = true → h.isByValue (.object y) = true := by
    intro o k y hf hy
    have hlt : y < h.objects.size := ht.known hf
    rwa [isByValue_congr] at hy
    rw [object?_reserve, if_neg (Nat.ne_of_lt hlt)]
  have hgrows : h.Grows (h.reserve cls byValue).2 := by
    refine ⟨fun {o i} ho => ⟨i, ?_, rfl⟩, Nat.le_refl _⟩
    rw [object?_reserve, if_neg (Nat.ne_of_lt (lt_of_object? ho)), ho]
  exact ⟨fun hf => (ht.known (hfield hf)).mono hgrows,
    fun hf hy => ht.ordered (hfield hf) (hbyValue (hfield hf) hy),
    fun hf hf' hy => ht.separate (hfield hf) (hfield hf') (hbyValue (hfield hf) hy),
    fun hp v hv => (ht.parameters hp v hv).mono hgrows⟩

/-- An object that has no fields yet may be filled with values which are loose and come after it. -/
theorem Yields.tidy_fill {n : ObjectId} (hvs : h.Yields h' vs) (hn : n < h.objects.size)
    (hself : h'.object? n = some ⟨cls, byValue, []⟩) : (h'.fill n vs).Tidy := by
  have hknown : ∀ v : Value, v.Known (h'.fill n vs) ↔ v.Known h' := fun v =>
    known_congr (size_fill h' n vs) rfl
  refine ⟨fun {o k v} hf => ?_, fun {o y k} hf hb => ?_, fun {o o' y k k'} hf hf' hb => ?_,
    fun hp v hv => ?_⟩
  · rw [hknown]
    rw [field?_fill hself] at hf
    split at hf
    · exact hvs.known v (List.mem_of_getElem? hf)
    · exact hvs.tidy.known hf
  · rw [isByValue_fill] at hb
    rw [field?_fill hself] at hf
    split at hf
    · next he => exact he ▸ Nat.lt_of_lt_of_le hn (hvs.new y (List.mem_of_getElem? hf) hb)
    · exact hvs.tidy.ordered hf hb
  -- a value that is loose is in the object only, and there once
  · rw [isByValue_fill] at hb
    rw [field?_fill hself] at hf hf'
    split at hf
    · next he =>
      split at hf'
      · next he' => exact ⟨he.trans he'.symm, hvs.distinct hf hf' hb⟩
      · exact (hvs.loose y (List.mem_of_getElem? hf) hb _ _ hf').elim
    · split at hf'
      · exact (hvs.loose y (List.mem_of_getElem? hf') hb _ _ hf).elim
      · exact hvs.tidy.separate hf hf' hb
  · rw [hknown]
    exact hvs.tidy.parameters hp v hv

/-- A new object is held nowhere while it is being filled. -/
theorem Yields.loose_reserved (ht : h.Tidy) (hvs : (h.reserve cls byValue).2.Yields h' vs)
    (hb : h'.isByValue (.object h.objects.size) = true) : h'.Loose h.objects.size := by
  intro o k hf
  have hlt : o < h.objects.size := hvs.tidy.ordered hf hb
  have hold : o < (h.reserve cls byValue).2.objects.size := by
    rw [size_reserve]
    exact Nat.lt_succ_of_lt hlt
  have hsame : (h.reserve cls byValue).2.object? o = h.object? o := by
    rw [object?_reserve, if_neg (Nat.ne_of_lt hlt)]
  rw [hvs.field?_eq hold, field?_congr hsame] at hf
  have hthere : h.objects.size < h.objects.size := ht.known hf
  exact Nat.lt_irrefl _ hthere

/-- A new object that is filled with values which are loose. -/
theorem Yields.object (ht : h.Tidy) (hvs : (h.reserve cls byValue).2.Yields h' vs) :
    h.Yields (h'.fill h.objects.size vs) [.object h.objects.size] := by
  have hn : h.objects.size < (h.reserve cls byValue).2.objects.size := by
    rw [size_reserve]
    exact Nat.lt_succ_self _
  have hreserved : (h.reserve cls byValue).2.object? h.objects.size = some ⟨cls, byValue, []⟩ := by
    rw [object?_reserve, if_pos rfl]
  have hself := hvs.old hreserved
  refine ⟨fun {o i} ho => ?_, hvs.carriers, hvs.tidy_fill hn hself, fun v hv => ?_, fun y hy _ => ?_,
    fun y hy hb o k hf => ?_, fun {k k' y} hk hk' _ => ?_⟩
  · have hne : o ≠ h.objects.size := Nat.ne_of_lt (lt_of_object? ho)
    rw [object?_fill, if_neg hne]
    refine hvs.old ?_
    rw [object?_reserve, if_neg hne, ho]
  · obtain rfl := List.mem_singleton.mp hv
    rw [known_congr (size_fill h' h.objects.size vs) rfl]
    exact lt_of_object? hself
  · obtain rfl := Value.object.inj (List.mem_singleton.mp hy)
    exact Nat.le_refl _
  · obtain rfl := Value.object.inj (List.mem_singleton.mp hy)
    rw [isByValue_fill] at hb
    rw [field?_fill hself] at hf
    split at hf
    -- its own fields come after it
    · have hlater := Nat.lt_of_lt_of_le hn (hvs.new _ (List.mem_of_getElem? hf) hb)
      exact Nat.lt_irrefl _ hlater
    · exact hvs.loose_reserved ht hb _ _ hf
  · have hlt : k < 1 := (List.getElem?_eq_some_iff.mp hk).1
    have hlt' : k' < 1 := (List.getElem?_eq_some_iff.mp hk').1
    omega

/-! ## Blanks -/

mutual

/-- Placing a blank. -/
theorem place_yields {h : Heap} (ht : h.Tidy) (b : Blank) : h.Yields (h.place b).2 [(h.place b).1] := by
  cases b with
  | null => exact .pure ht trivial rfl
  | scalar s => exact .pure ht trivial rfl
  | record c bs => exact .object ht (placeAll_yields ht.reserve bs)
termination_by sizeOf b

/-- Placing blanks. -/
theorem placeAll_yields {h : Heap} (ht : h.Tidy) (bs : List Blank) :
    h.Yields (h.placeAll bs).2 (h.placeAll bs).1 := by
  cases bs with
  | nil => exact .nil ht
  | cons b bs =>
    have hb := place_yields ht b
    exact hb.cons (placeAll_yields hb.tidy bs)
termination_by sizeOf bs

end

/-- A new object whose fields are blank. -/
theorem allocate_yields (ht : h.Tidy) (cls : ClassId) (byValue : Bool) (bs : List Blank) :
    h.Yields (h.allocate cls byValue bs).2 [.object h.objects.size] :=
  .object ht (placeAll_yields ht.reserve bs)

/-- What is placed for one of several blanks: nothing, or an object that is held by value. -/
theorem placeAll_getElem? {bs : List Blank} {b : Blank} (hb : bs[k]? = some b) :
    ∃ v, (h.placeAll bs).1[k]? = some v ∧ (b = .null → v = .null) ∧
      ∀ F cs, b = .record F cs → ∃ x i, v = .object x ∧ (h.placeAll bs).2.object? x = some i ∧
        i.shape = ⟨F, true, cs.length⟩ := by
  induction bs generalizing h k with
  | nil => cases hb
  | cons b' bs ih =>
    cases k with
    | zero =>
      obtain rfl := Option.some.inj hb
      have hlater := (placeAll_adds (C := fun _ => True) (h.place b').2 bs fun b _ => b.all_true).1
      refine ⟨(h.place b').1, rfl, ?_, ?_⟩
      · rintro rfl
        rfl
      · rintro F cs rfl
        have hplaced : (h.place (.record F cs)).2.object? h.objects.size =
            some ⟨F, true, ((h.reserve F true).2.placeAll cs).1⟩ := by
          have hall := (placeAll_adds (C := fun _ => True) (h.reserve F true).2 cs
            fun b _ => b.all_true).1
          have hself : (h.reserve F true).2.object? h.objects.size = some ⟨F, true, []⟩ := by
            rw [object?_reserve, if_pos rfl]
          show (((h.reserve F true).2.placeAll cs).2.fill h.objects.size _).object? _ = _
          rw [object?_fill, if_pos rfl, hall.old hself]
          rfl
        refine ⟨h.objects.size, _, rfl, hlater.old hplaced, ?_⟩
        rw [Instance.shape, length_placeAll]
    | succ k => exact ih hb

/-- What a new object that is shared by reference holds in a slot with a blank. -/
theorem allocate_field {bs : List Blank} {b : Blank} (hb : bs[k]? = some b) :
    ∃ v, (h.allocate cls false bs).2.field? h.objects.size k = some v ∧ (b = .null → v = .null) ∧
      ∀ F cs, b = .record F cs → ∃ x i, v = .object x ∧
        (h.allocate cls false bs).2.object? x = some i ∧ i.shape = ⟨F, true, cs.length⟩ := by
  have hall := (placeAll_adds (C := fun _ => True) (h.reserve cls false).2 bs fun b _ => b.all_true).1
  have hself : ((h.reserve cls false).2.placeAll bs).2.object? h.objects.size =
      some ⟨cls, false, []⟩ := by
    refine hall.old ?_
    rw [object?_reserve, if_pos rfl]
  obtain ⟨v, hv, hnull, hrecord⟩ := placeAll_getElem? (h := (h.reserve cls false).2) hb
  refine ⟨v, ?_, hnull, fun F cs he => ?_⟩
  · exact (field?_fill hself h.objects.size k).trans ((if_pos rfl).trans hv)
  · obtain ⟨x, i, rfl, hi, hs⟩ := hrecord F cs he
    refine ⟨x, i, rfl, ?_, hs⟩
    have hne : x ≠ h.objects.size := by
      rintro rfl
      obtain rfl := Option.some.inj (hself.symm.trans hi)
      cases hs
    show (((h.reserve cls false).2.placeAll bs).2.fill h.objects.size _).object? x = _
    rw [object?_fill, if_neg hne, hi]

/-! ## Stores -/

/-- A value that is loose may be put into a slot of an object that comes before it. -/
theorem Tidy.put (ht : h.Tidy) (hi : h.object? o = some i) (hk : k < i.fields.length)
    (hu : u.Known h) (hnew : ∀ y, u = .object y → h.isByValue u = true → o < y ∧ h.Loose y) :
    (h.put o k u).Tidy := by
  have hknown : ∀ v : Value, v.Known (h.put o k u) ↔ v.Known h := fun v =>
    known_congr (size_put h o k u) rfl
  refine ⟨fun {o' k' v} hf => ?_, fun {o' y k'} hf hb => ?_, fun {o₁ o₂ y k₁ k₂} hf hf' hb => ?_,
    fun hp v hv => ?_⟩
  · rw [hknown]
    rw [field?_put hi hk] at hf
    split at hf
    · exact Option.some.inj hf ▸ hu
    · exact ht.known hf
  · rw [isByValue_put] at hb
    rw [field?_put hi hk] at hf
    split at hf
    · next he =>
      obtain rfl := Option.some.inj hf
      exact he.1 ▸ (hnew y rfl hb).1
    · exact ht.ordered hf hb
  · rw [isByValue_put] at hb
    rw [field?_put hi hk] at hf hf'
    split at hf
    · next he =>
      split at hf'
      · next he' => exact ⟨he.1.trans he'.1.symm, he.2.trans he'.2.symm⟩
      · obtain rfl := Option.some.inj hf
        exact ((hnew y rfl hb).2 _ _ hf').elim
    · split at hf'
      · obtain rfl := Option.some.inj hf'
        exact ((hnew y rfl hb).2 _ _ hf).elim
      · exact ht.separate hf hf' hb
  · rw [hknown]
    exact ht.parameters hp v hv

end RecordForge.Heap
