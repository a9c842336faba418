import RecordForge.Proofs.Heap.Tidy

/-!
# Copies

Storing an object that is held by value stores a copy. `Heap.Alike h h' v v'` says that `v` in the heap
`h` and `v'` in the heap `h'` have the same contents: they are equal as far as nothing is held by value,
and what is held by value has the same class and fields that are alike.

In a tidy heap a copy is alike, is loose, and shares nothing with other copies. The reason is the order
of the objects: numbers grow along what is held by value, so the number of objects bounds the depth to
which a copy has to go (`copyTo_faithful`). A value goes on to have the same contents as long as all
objects that it holds by value stay as they are (`alike_of_spares`).
-/

namespace RecordForge.Heap

/-- A value of a heap and a value of another one have the same contents. -/
inductive Alike (h h' : Heap) : Value → Value → Prop
  | null : Alike h h' .null .null
  | scalar (s : Scalar) : Alike h h' (.scalar s) (.scalar s)
  | carrier (c : CarrierId) : Alike h h' (.carrier c) (.carrier c)
  | shared {o : ObjectId} {i j : Instance} (hi : h.object? o = some i) (hj : h'.object? o = some j)
      (hs : j.shape = i.shape) (hb : i.byValue = false) : Alike h h' (.object o) (.object o)
  | copied {a b : ObjectId} {i j : Instance} (hi : h.object? a = some i) (hj : h'.object? b = some j)
      (hs : j.shape = i.shape) (hb : i.byValue = true)
      (hf : ∀ {k : Nat} {v v' : Value}, i.fields[k]? = some v → j.fields[k]? = some v' →
        Alike h h' v v') :
      Alike h h' (.object a) (.object b)

variable {C : ClassId → Prop} {h h' h₁ h₂ : Heap} {o y : ObjectId} {k : Nat} {v u u' : Value}
variable {vs : List Value} {i : Instance}

namespace Alike

/-- Nothing but itself has the contents of a value that means the same in every heap. -/
theorem eq_of_isLiteral (ha : h.Alike h' v u) (hv : v.isLiteral = true) : u = v := by
  cases ha with
  | null => rfl
  | scalar s => rfl
  | carrier c => rfl
  | shared => cases hv
  | copied => cases hv

/-- A value that means the same in every heap has the same contents in all of them. -/
theorem of_isLiteral (hv : v.isLiteral = true) : h.Alike h' v v := by
  cases v with
  | null => exact .null
  | scalar s => exact .scalar s
  | object o => cases hv
  | carrier c => cases hv

theorem symm (ha : h.Alike h' v u) : h'.Alike h u v := by
  induction ha with
  | null => exact .null
  | scalar s => exact .scalar s
  | carrier c => exact .carrier c
  | shared hi hj hs hb => exact .shared hj hi hs.symm ((congrArg Shape.byValue hs).trans hb)
  | copied hi hj hs hb _ ih =>
    exact .copied hj hi hs.symm ((congrArg Shape.byValue hs).trans hb) fun hk hk' => ih hk' hk

theorem trans (ha : h.Alike h₁ v u) (ha' : h₁.Alike h₂ u u') : h.Alike h₂ v u' := by
  induction ha generalizing u' with
  | null =>
    cases ha'
    exact .null
  | scalar s =>
    cases ha'
    exact .scalar s
  | carrier c =>
    cases ha'
    exact .carrier c
  | shared hi hj hs hb =>
    cases ha' with
    | shared hi' hj' hs' hb' =>
      obtain rfl := Option.some.inj (hj.symm.trans hi')
      exact .shared hi hj' (hs'.trans hs) hb
    | copied hi' hj' hs' hb' =>
      obtain rfl := Option.some.inj (hj.symm.trans hi')
      have hbyValue := congrArg Shape.byValue hs
      rw [Instance.shape, Instance.shape, hb', hb] at hbyValue
      cases hbyValue
  | @copied a b i j hi hj hs hb hf ih =>
    cases ha' with
    | shared hi' hj' hs' hb' =>
      obtain rfl := Option.some.inj (hj.symm.trans hi')
      have hbyValue := congrArg Shape.byValue hs
      rw [Instance.shape, Instance.shape, hb', hb] at hbyValue
      cases hbyValue
    | @copied _ _ j' j'' hi' hj' hs' hb' hf' =>
      obtain rfl := Option.some.inj (hj.symm.trans hi')
      refine .copied hi hj' (hs'.trans hs) hb fun {k v v'} hv hv' => ?_
      have hlength : j''.fields.length = j.fields.length := congrArg Shape.size hs'
      have hk : k < j.fields.length := hlength ▸ (List.getElem?_eq_some_iff.mp hv').1
      exact ih hv (List.getElem?_eq_getElem hk) (hf' (List.getElem?_eq_getElem hk) hv')

end Alike

/-- A value keeps its contents while the objects of a set stay as they are, if that has what the value
holds by value, and with an object all that the object holds by value. -/
theorem alike_of_spares {P : ObjectId → Prop} (ht : h.Tidy)
    (hsame : ∀ {y : ObjectId} {i : Instance}, P y → h.object? y = some i → h'.object? y = some i)
    (hshared : ∀ {y : ObjectId} {i : Instance}, h.object? y = some i → i.byValue = false →
      ∃ j, h'.object? y = some j ∧ j.shape = i.shape)
    (hclosed : ∀ {y z : ObjectId} {k : Nat}, P y → h.field? y k = some (.object z) →
      h.isByValue (.object z) = true → P z)
    (hv : v.Known h) (hP : ∀ y, v = .object y → h.isByValue v = true → P y) : h.Alike h' v v := by
  cases v with
  | null => exact .null
  | scalar s => exact .scalar s
  | carrier c => exact .carrier c
  | object o =>
    -- what an object holds by value comes after it
    generalize hn : h.objects.size - o = n
    induction n using Nat.strongRecOn generalizing o with
    | ind n ih =>
      have hlt : o < h.objects.size := hv
      obtain ⟨i, hi⟩ := exists_object? hlt
      cases hb : i.byValue with
      | false =>
        obtain ⟨j, hj, hs⟩ := hshared hi hb
        exact .shared hi hj hs hb
      | true =>
        have ho : P o := hP o rfl (isByValue_object.mpr ⟨i, hi, hb⟩)
        refine .copied hi (hsame ho hi) rfl hb fun {k v v'} hk hk' => ?_
        obtain rfl := Option.some.inj (hk.symm.trans hk')
        have hf : h.field? o k = some v := field?_eq_some_iff.mpr ⟨i, hi, hk⟩
        have hknown : v.Known h := ht.known hf
        cases v with
        | null => exact .null
        | scalar s => exact .scalar s
        | carrier c => exact .carrier c
        | object z =>
          cases hz : h.isByValue (.object z) with
          | false =>
            obtain ⟨iz, hiz⟩ := exists_object? hknown
            have hbz : iz.byValue = false := by
              rw [isByValue, hiz] at hz
              exact hz
            obtain ⟨jz, hjz, hsz⟩ := hshared hiz hbz
            exact .shared hiz hjz hsz hbz
          | true =>
            have hlater : o < z := ht.ordered hf hz
            refine ih (h.objects.size - z) (hn ▸ Nat.sub_lt_sub_left hlt hlater) z hknown
              (fun y hy _ => ?_) rfl
            obtain rfl := Value.object.inj hy
            exact hclosed ho hf hz

/-- A value keeps its contents while all objects after some object stay as they are, if it holds none
but these by value. -/
theorem alike_of_later {n : ObjectId} (ht : h.Tidy)
    (hsame : ∀ {y : ObjectId} {i : Instance}, n < y → h.object? y = some i → h'.object? y = some i)
    (hshared : ∀ {y : ObjectId} {i : Instance}, h.object? y = some i → i.byValue = false →
      ∃ j, h'.object? y = some j ∧ j.shape = i.shape)
    (hv : v.Known h) (hn : ∀ y, v = .object y → h.isByValue v = true → n < y) : h.Alike h' v v :=
  alike_of_spares ht hsame hshared (fun hy hf hb => Nat.lt_trans hy (ht.ordered hf hb)) hv hn

/-- A value keeps its contents while the objects that are there stay as they are. -/
theorem alike_of_old (ht : h.Tidy) (hold : ∀ {o i}, h.object? o = some i → h'.object? o = some i)
    (hv : v.Known h) : h.Alike h' v v :=
  alike_of_spares (P := fun _ => True) ht (fun _ hi => hold hi) (fun hi _ => ⟨_, hold hi, rfl⟩)
    (fun _ _ _ => trivial) hv fun _ _ _ => trivial

theorem Yields.alike (hy : h.Yields h' vs) (ht : h.Tidy) (hv : v.Known h) : h.Alike h' v v :=
  alike_of_old ht hy.old hv

/-- A new object without fields. -/
theorem Yields.reserve {cls : ClassId} {byValue : Bool} (ht : h.Tidy) :
    h.Yields (h.reserve cls byValue).2 [] where
  old {o i} ho := by rw [object?_reserve, if_neg (Nat.ne_of_lt (lt_of_object? ho)), ho]
  carriers := rfl
  tidy := ht.reserve
  known _ hv := nomatch hv
  new _ hv := nomatch hv
  loose _ hv := nomatch hv
  distinct hk := nomatch hk

/-- Values that are loose are left alone when an object before them is filled with them. -/
theorem Yields.alike_fill {n : ObjectId} {cls : ClassId} (hvs : h.Yields h₁ vs)
    (hn : n < h.objects.size) (hself : h₁.object? n = some ⟨cls, true, []⟩) (hv : v ∈ vs) :
    h₁.Alike (h₁.fill n vs) v v := by
  refine alike_of_later hvs.tidy (fun {y i} hy hi => ?_) (fun {y i} hi hb => ⟨i, ?_, rfl⟩)
    (hvs.known v hv) fun y he hb => Nat.lt_of_lt_of_le hn (hvs.new y (he ▸ hv) (he ▸ hb))
  · rw [object?_fill, if_neg (Nat.ne_of_gt hy), hi]
  · have hne : y ≠ n := by
      rintro rfl
      obtain rfl := Option.some.inj (hi.symm.trans hself)
      cases hb
    rw [object?_fill, if_neg hne, hi]

/-- An operation after another one, whose values do not matter. -/
theorem Yields.after {us : List Value} (hy : h.Yields h₁ us) (hy' : h₁.Yields h₂ vs) :
    h.Yields h₂ [] where
  old ho := hy'.old (hy.old ho)
  carriers := hy'.carriers.trans hy.carriers
  tidy := hy'.tidy
  known _ hv := nomatch hv
  new _ hv := nomatch hv
  loose _ hv := nomatch hv
  distinct hk := nomatch hk

/-! ## Copying -/

/-- Copying an object of the heap `B` that is held by value, and has no smaller number than `n`, gives
one with the same contents, in any later heap in which all objects of `B` are as they were. -/
def Faithful (B : Heap) (n : Nat) (copy : Heap → ObjectId → ObjectId × Heap) : Prop :=
  ∀ {h : Heap} {o : ObjectId}, B.Yields h [] → B.isByValue (.object o) = true → n ≤ o →
    h.Yields (copy h o).2 [.object (copy h o).1] ∧
      B.Alike (copy h o).2 (.object o) (.object (copy h o).1)

section
variable {B : Heap} {n : Nat} {copy : Heap → ObjectId → ObjectId × Heap}
variable (hB : B.Tidy) (hcopy : B.Faithful n copy)
include hB hcopy

/-- Preparing a value to be stored. -/
theorem assignWith_spec (hh : B.Yields h []) (hv : v.Known B)
    (hn : ∀ y, v = .object y → B.isByValue v = true → n ≤ y) :
    h.Yields (h.assignWith copy v).2 [(h.assignWith copy v).1] ∧
      B.Alike (h.assignWith copy v).2 v (h.assignWith copy v).1 := by
  have hbyValue : h.isByValue v = B.isByValue v := hh.grows.isByValue_eq hv
  cases hb : B.isByValue v with
  | false =>
    rw [assignWith_of_not_isByValue (hbyValue.trans hb)]
    exact ⟨.pure hh.tidy (hv.mono hh.grows) (hbyValue.trans hb), hh.alike hB hv⟩
  | true =>
    obtain ⟨o, i, rfl, -, -⟩ := exists_of_isByValue hb
    rw [assignWith_of_isByValue (hbyValue.trans hb)]
    exact hcopy hh hb (hn o rfl hb)

/-- Preparing values to be stored. -/
theorem assignAll_spec (hh : B.Yields h []) (hvs : ∀ v ∈ vs, v.Known B)
    (hn : ∀ y, .object y ∈ vs → B.isByValue (.object y) = true → n ≤ y) :
    h.Yields (h.assignAll copy vs).2 (h.assignAll copy vs).1 ∧
      (h.assignAll copy vs).1.length = vs.length ∧
      ∀ {k : Nat} {v v' : Value}, vs[k]? = some v → (h.assignAll copy vs).1[k]? = some v' →
        B.Alike (h.assignAll copy vs).2 v v' := by
  induction vs generalizing h with
  | nil => exact ⟨.nil hh.tidy, rfl, fun hk => nomatch hk⟩
  | cons v vs ih =>
    obtain ⟨hfirst, hsame⟩ := assignWith_spec hB hcopy hh (hvs v List.mem_cons_self)
      fun y hy hb => hn y (hy ▸ List.mem_cons_self) (hy ▸ hb)
    obtain ⟨hrest, hlength, hall⟩ := ih (hh.after hfirst)
      (fun u hu => hvs u (List.mem_cons_of_mem _ hu)) fun y hy => hn y (List.mem_cons_of_mem _ hy)
    refine ⟨hfirst.cons hrest, congrArg Nat.succ hlength, fun {k u u'} hk hk' => ?_⟩
    cases k with
    | zero =>
      obtain rfl := Option.some.inj hk
      obtain rfl := Option.some.inj hk'
      exact hsame.trans (hrest.alike hfirst.tidy (hfirst.known _ (List.mem_singleton.mpr rfl)))
    | succ k => exact hall hk hk'

end

/-- Copying down to a depth is faithful for objects that are no deeper. -/
theorem copyTo_faithful {B : Heap} (hB : B.Tidy) (depth : Nat) :
    B.Faithful (B.objects.size - depth) (copyTo depth) := by
  induction depth with
  | zero =>
    intro h o _ hb hle
    exact absurd (lt_of_isByValue hb) (Nat.not_lt_of_le hle)
  | succ depth ih =>
    intro h o hh hb hle
    obtain ⟨i, hi, hbi⟩ := isByValue_object.mp hb
    have hio : h.object? o = some i := hh.old hi
    simp only [copyTo, hio, hbi]
    have hreserve : B.Yields (h.reserve i.cls true).2 [] := hh.after (.reserve hh.tidy)
    have hknown : ∀ v ∈ i.fields, v.Known B := fun v hv => (hB.fields hi v hv).1
    -- what the object holds by value comes after it, so it is less deep
    have hdeeper : ∀ y, .object y ∈ i.fields → B.isByValue (.object y) = true →
        B.objects.size - depth ≤ y := fun y hy hby => by
      have hlt : o < y := (hB.fields hi _ hy).2 y rfl hby
      exact Nat.le_trans (by omega) (Nat.succ_le_of_lt hlt)
    obtain ⟨hall, hlength, hsame⟩ := assignAll_spec hB ih hreserve hknown hdeeper
    obtain ⟨vs, h₁, hassign⟩ : ∃ vs h₁,
        (h.reserve i.cls true).2.assignAll (copyTo depth) i.fields = (vs, h₁) := ⟨_, _, rfl⟩
    rw [hassign] at hall hlength hsame ⊢
    have hn : h.objects.size < (h.reserve i.cls true).2.objects.size := by
      rw [size_reserve]
      exact Nat.lt_succ_self _
    have hself : h₁.object? h.objects.size = some ⟨i.cls, true, []⟩ := by
      refine hall.old ?_
      rw [object?_reserve, if_pos rfl]
    refine ⟨.object hh.tidy hall, .copied hi (j := ⟨i.cls, true, vs⟩) ?_ ?_ hbi
      fun {k v v'} hk hk' => ?_⟩
    · show (h₁.fill h.objects.size vs).object? h.objects.size = _
      rw [object?_fill, if_pos rfl, hself]
      rfl
    · rw [Instance.shape, Instance.shape, hlength, hbi]
    · exact (hsame hk hk').trans (hall.alike_fill hn hself (List.mem_of_getElem? hk'))

/-- A copy of an object, held by value or not, is new and loose. -/
theorem copy_yields (ht : h.Tidy) (ho : o < h.objects.size) :
    h.Yields (h.copy o).2 [.object (h.copy o).1] := by
  obtain ⟨i, hi⟩ := exists_object? ho
  obtain ⟨n, hn⟩ := Nat.exists_eq_succ_of_ne_zero (Nat.ne_zero_of_lt ho)
  rw [copy, hn]
  simp only [copyTo, hi]
  refine .object ht (assignAll_spec ht (copyTo_faithful ht n) (.reserve ht)
    (fun v hv => (ht.fields hi v hv).1) fun y hy hb => ?_).1
  -- what the object holds by value comes after it, so it is no deeper than the rest
  have hlt : o < y := (ht.fields hi _ hy).2 y rfl hb
  rw [hn, Nat.succ_sub (Nat.le_refl n), Nat.sub_self]
  exact Nat.succ_le_of_lt (Nat.zero_lt_of_lt hlt)

/-- **What is prepared to be stored** has the contents of the value, and shares nothing with it. -/
theorem assign_spec (ht : h.Tidy) (hv : v.Known h) :
    h.Yields (h.assign v).2 [(h.assign v).1] ∧ h.Alike (h.assign v).2 v (h.assign v).1 := by
  cases hb : h.isByValue v with
  | false =>
    rw [assign_of_not_isByValue hb]
    exact ⟨.pure ht hv hb, (Yields.nil ht).alike ht hv⟩
  | true =>
    obtain ⟨o, i, rfl, -, -⟩ := exists_of_isByValue hb
    rw [assign, assignWith_of_isByValue hb]
    exact copyTo_faithful ht h.objects.size (.nil ht) hb (by omega)

/-! ## Stores -/

/-- `h'` differs from `h` in slots of one object, apart from new objects. -/
structure Overwrites (h h' : Heap) (o : ObjectId) (slots : Nat → Prop) : Prop where
  tidy : h'.Tidy
  grows : h.Grows h'
  others : ∀ {a i}, a ≠ o → h.object? a = some i → h'.object? a = some i
  slots : ∀ {k}, ¬slots k → h'.field? o k = h.field? o k

namespace Overwrites

variable {P Q : Nat → Prop}

theorem trans (hw : h.Overwrites h₁ o P) (hw' : h₁.Overwrites h₂ o Q) :
    h.Overwrites h₂ o fun k => P k ∨ Q k where
  tidy := hw'.tidy
  grows := hw.grows.trans hw'.grows
  others ha hi := hw'.others ha (hw.others ha hi)
  slots hk := (hw'.slots fun h => hk (.inr h)).trans (hw.slots fun h => hk (.inl h))

/-- Fields of other objects are as they were. -/
theorem field?_eq (hw : h.Overwrites h' o P) {a : ObjectId} (ha : a < h.objects.size)
    (hk : a = o → ¬P k) : h'.field? a k = h.field? a k := by
  by_cases he : a = o
  · subst he
    exact hw.slots (hk rfl)
  · obtain ⟨i, hi⟩ := exists_object? ha
    exact field?_congr ((hw.others he hi).trans hi.symm)

/-- Other values keep their contents, if the object that has changed is not held by an object that is
held by value itself. -/
theorem alike (hw : h.Overwrites h' o P) (ht : h.Tidy) (hv : v.Known h)
    (hroot : ∀ {a k}, h.field? a k = some (.object o) → h.isByValue (.object o) = true →
      h.isByValue (.object a) = false)
    (hne : v = .object o → h.isByValue v = false) : h.Alike h' v v := by
  refine alike_of_spares (P := fun y => h.isByValue (.object y) = true ∧ y ≠ o) ht
    (fun hy hi => hw.others hy.2 hi) (fun hi _ => hw.grows.objects hi) (fun {y z k} hy hf hb => ⟨hb, ?_⟩)
    hv fun y he hb => ⟨he ▸ hb, ?_⟩
  · rintro rfl
    have hfalse := hroot hf hb
    rw [hy.1] at hfalse
    cases hfalse
  · rintro rfl
    rw [hne he] at hb
    cases hb

end Overwrites

/-- **What storing a value does.** The slot holds a value of the same contents, and nothing else has
changed. -/
theorem store_spec (ht : h.Tidy) (hv : v.Known h) (hs : h.store o k v = some h') :
    h.Overwrites h' o (· = k) ∧ ∃ u, h'.field? o k = some u ∧ h.Alike h' v u := by
  obtain ⟨i, hi, hk, rfl⟩ := store_eq_some_iff.mp hs
  obtain ⟨hyields, hsame⟩ := assign_spec ht hv
  obtain ⟨u, h₁, hassign⟩ : ∃ u h₁, h.assign v = (u, h₁) := ⟨_, _, rfl⟩
  rw [hassign] at hyields hsame ⊢
  have hi₁ : h₁.object? o = some i := hyields.old hi
  have hu : u.Known h₁ := hyields.known u (List.mem_singleton.mpr rfl)
  have hnew : ∀ y, u = .object y → h₁.isByValue u = true → o < y ∧ h₁.Loose y := by
    rintro y rfl hb
    have hy : Value.object y ∈ [Value.object y] := List.mem_singleton.mpr rfl
    exact ⟨Nat.lt_of_lt_of_le (lt_of_object? hi) (hyields.new y hy hb), hyields.loose y hy hb⟩
  have hgrows : h₁.Grows (h₁.put o k u) := put_grows h₁ o k u
  refine ⟨⟨hyields.tidy.put hi₁ hk hu hnew, hyields.grows.trans hgrows, fun {a j} ha hj => ?_,
    fun {k'} hk' => ?_⟩, u, ?_, hsame.trans ?_⟩
  · rw [object?_put, if_neg ha]
    exact hyields.old hj
  · rw [field?_put hi₁ hk, if_neg fun h => hk' h.2]
    exact field?_congr (hi₁.trans hi.symm)
  · rw [field?_put hi₁ hk, if_pos ⟨rfl, rfl⟩]
  · refine alike_of_later hyields.tidy (fun {y j} hy hj => ?_) (fun hj _ => hgrows.objects hj) hu
      fun y he hb => (hnew y he hb).1
    rw [object?_put, if_neg (Nat.ne_of_gt hy), hj]

/-! ## Carriers -/

/-- The carriers matter as far as they are there, and hold what is there. -/
theorem Tidy.carriers (ht : h.Tidy) {carriers : Array (Option (List Value))}
    (hsize : h.carriers.size ≤ carriers.size)
    (hp : ∀ {c vs}, { h with carriers }.parameters? c = some vs → ∀ v ∈ vs, v.Known h) :
    { h with carriers }.Tidy := by
  have hgrows : h.Grows { h with carriers } := ⟨fun hi => ⟨_, hi, rfl⟩, hsize⟩
  exact ⟨fun hf => (ht.known hf).mono hgrows, fun hf hb => ht.ordered hf hb,
    fun hf hf' hb => ht.separate hf hf' hb, fun hc v hv => (hp hc v hv).mono hgrows⟩

theorem Tidy.newCarrier (ht : h.Tidy) : h.newCarrier.2.Tidy := by
  refine ht.carriers (Array.size_push (α := Option (List Value)) none ▸ Nat.le_succ _)
    fun {c vs} hp => ?_
  have hp : ((h.carriers.push none)[c]?).join = some vs := hp
  rw [Array.getElem?_push] at hp
  split at hp
  · cases hp
  · exact ht.parameters hp

theorem Tidy.setParameters (ht : h.Tidy) {c : CarrierId} {values : Option (List Value)}
    (hvs : ∀ vs ∈ values, ∀ v ∈ vs, v.Known h) : (h.setParameters c values).Tidy := by
  refine ht.carriers (Nat.le_of_eq Array.size_setIfInBounds.symm) fun {c' vs} hp => ?_
  have hp : ((h.carriers.setIfInBounds c values)[c']?).join = some vs := hp
  rw [Array.getElem?_setIfInBounds] at hp
  split at hp
  · split at hp
    · exact hvs vs hp
    · cases hp
  · exact ht.parameters hp

/-- Nothing is tidy. -/
theorem tidy_empty : Tidy {} where
  known hf := nomatch hf
  ordered hf := nomatch hf
  separate hf := nomatch hf
  parameters hp := nomatch hp

end RecordForge.Heap
