import RecordForge.Proofs.Heap.Parts

/-!
# Equality of values

Equality of values is symmetric and transitive, whatever the heap (`Heap.same_symm`, `Heap.same_trans`).
It is not reflexive, since a NaN is equal to nothing; but a value that has no NaN among its contents is
equal to everything that has the same contents (`Heap.same_of_alike`).

`Heap.Compares` says how two values are compared step by step: objects that are held by value field by
field, up to the first difference, and all others at once. No depth bounds that. In a tidy heap every
comparison of known values ends, and its answer is that of `Heap.same` (`Heap.compares_iff`); so the
depth that bounds the latter is never reached. References play no part in this, and may run in circles.
-/

namespace RecordForge

/-! ## Scalars -/

namespace Binary

variable {f : Format} {x y z : Binary f}

theorem same_iff : x.same y = true ↔ x.isNaN = false ∧ y.isNaN = false ∧ x.code = y.code ∧
    (x.negative = y.negative ∨ x.code = 0) := by
  simp [same, and_assoc]

theorem same_symm (h : x.same y = true) : y.same x = true := by
  obtain ⟨hx, hy, hcode, hsign⟩ := same_iff.mp h
  exact same_iff.mpr ⟨hy, hx, hcode.symm, hsign.imp Eq.symm (hcode ▸ ·)⟩

theorem same_trans (hxy : x.same y = true) (hyz : y.same z = true) : x.same z = true := by
  obtain ⟨hx, -, hcode, hsign⟩ := same_iff.mp hxy
  obtain ⟨-, hz, hcode', hsign'⟩ := same_iff.mp hyz
  refine same_iff.mpr ⟨hx, hz, hcode.trans hcode', ?_⟩
  rcases hsign with hsign | hzero
  · exact hsign'.imp hsign.trans (hcode.trans ·)
  · exact .inr hzero

theorem same_self (hx : x.isNaN = false) : x.same x = true :=
  same_iff.mpr ⟨hx, hx, rfl, .inl rfl⟩

end Binary

namespace Scalar

variable {a b c : Scalar}

theorem same_cases (h : a.same b = true) : a = b ∨
    (∃ x y, a = single x ∧ b = single y ∧ x.same y = true) ∨
    ∃ x y, a = double x ∧ b = double y ∧ x.same y = true := by
  unfold same at h
  split at h
  · exact .inr (.inl ⟨_, _, rfl, rfl, h⟩)
  · exact .inr (.inr ⟨_, _, rfl, rfl, h⟩)
  · exact .inl (eq_of_beq h)

theorem same_symm (h : a.same b = true) : b.same a = true := by
  rcases same_cases h with rfl | ⟨x, y, rfl, rfl, hxy⟩ | ⟨x, y, rfl, rfl, hxy⟩
  · exact h
  · exact Binary.same_symm hxy
  · exact Binary.same_symm hxy

theorem same_trans (hab : a.same b = true) (hbc : b.same c = true) : a.same c = true := by
  rcases same_cases hab with rfl | ⟨x, y, rfl, rfl, hxy⟩ | ⟨x, y, rfl, rfl, hxy⟩
  · exact hbc
  · rcases same_cases hbc with rfl | ⟨y', z, he, rfl, hyz⟩ | ⟨y', z, he, -, -⟩
    · exact hab
    · exact Binary.same_trans hxy (single.inj he ▸ hyz)
    · cases he
  · rcases same_cases hbc with rfl | ⟨y', z, he, -, -⟩ | ⟨y', z, he, rfl, hyz⟩
    · exact hab
    · cases he
    · exact Binary.same_trans hxy (double.inj he ▸ hyz)

end Scalar

/-- Whether a value is a NaN. -/
def Value.isNaN : Value → Bool
  | .scalar (.single x) => x.isNaN
  | .scalar (.double x) => x.isNaN
  | _ => false

theorem Scalar.same_self {a : Scalar} (ha : (Value.scalar a).isNaN = false) : a.same a = true := by
  cases a with
  | single x => exact Binary.same_self ha
  | double x => exact Binary.same_self ha
  | _ => exact beq_self_eq_true _

namespace Heap

variable {h h' : Heap} {a b c o x : ObjectId} {i j : Instance} {u v w : Value} {vs ws us : List Value}
variable {same : ObjectId → ObjectId → Bool} {depth k : Nat} {r : Bool}

/-! ## Symmetry and transitivity -/

theorem sameValue_symm (hs : ∀ {a b}, same a b = true → same b a = true)
    (h : sameValue same v w = true) : sameValue same w v = true := by
  cases v <;> cases w <;> try cases h
  · rfl
  · exact Scalar.same_symm h
  · exact hs h
  · exact beq_iff_eq.mpr (beq_iff_eq.mp h).symm

theorem sameValue_trans (hs : ∀ {a b c}, same a b = true → same b c = true → same a c = true)
    (huv : sameValue same u v = true) (hvw : sameValue same v w = true) :
    sameValue same u w = true := by
  cases u <;> cases v <;> (try cases huv) <;> cases w <;> try cases hvw
  · rfl
  · exact Scalar.same_trans huv hvw
  · exact hs huv hvw
  · exact beq_iff_eq.mpr ((beq_iff_eq.mp huv).trans (beq_iff_eq.mp hvw))

/-- Lists are equal if they are of one length and equal at each place. -/
theorem sameAll_iff : sameAll same vs ws = true ↔
    List.Forall₂ (fun v w => sameValue same v w = true) vs ws := by
  induction vs generalizing ws with
  | nil => cases ws <;> simp [sameAll]
  | cons v vs ih => cases ws <;> simp [sameAll, ih]

theorem sameAll_symm (hs : ∀ {a b}, same a b = true → same b a = true)
    (h : sameAll same vs ws = true) : sameAll same ws vs = true :=
  sameAll_iff.mpr ((sameAll_iff.mp h).flip.imp fun _ _ => sameValue_symm hs)

theorem sameAll_trans (hs : ∀ {a b c}, same a b = true → same b c = true → same a c = true)
    (huv : sameAll same us vs = true) (hvw : sameAll same vs ws = true) :
    sameAll same us ws = true := by
  rw [sameAll_iff] at huv hvw ⊢
  induction huv generalizing ws with
  | nil => exact hvw
  | cons huv _ ih =>
    cases hvw with
    | cons hvw hrest => exact .cons (sameValue_trans hs huv hvw) (ih hrest)

/-- Two objects are equal if they are one, or are held by value, are of one class, and have equal
fields. -/
theorem sameObject_succ_iff : h.sameObject (depth + 1) a b = true ↔ a = b ∨ ∃ i j,
    h.object? a = some i ∧ h.object? b = some j ∧ i.byValue = true ∧ j.byValue = true ∧ i.cls = j.cls ∧
      sameAll (h.sameObject depth) i.fields j.fields = true := by
  rw [sameObject, Bool.or_eq_true, beq_iff_eq]
  cases h.object? a <;> cases h.object? b <;> simp [and_assoc]

theorem sameObject_self (h : Heap) (depth : Nat) (a : ObjectId) : h.sameObject depth a a = true := by
  cases depth <;> simp [sameObject]

/-- Objects that may be equal are equal if their fields are. -/
theorem sameObject_of_close (hab : a ≠ b) (hi : h.object? a = some i) (hj : h.object? b = some j)
    (hclose : i.byValue = true ∧ j.byValue = true ∧ i.cls = j.cls) :
    h.sameObject (depth + 1) a b = sameAll (h.sameObject depth) i.fields j.fields := by
  have hdifferent : (a == b) = false := beq_eq_false_iff_ne.mpr hab
  simp [sameObject, hdifferent, hi, hj, hclose]

/-- Other objects are different if they are not one. -/
theorem sameObject_of_apart (hab : a ≠ b) (hi : h.object? a = some i) (hj : h.object? b = some j)
    (hapart : ¬(i.byValue = true ∧ j.byValue = true ∧ i.cls = j.cls)) :
    h.sameObject depth a b = false := by
  cases depth with
  | zero => exact beq_eq_false_iff_ne.mpr hab
  | succ depth =>
    rw [← Bool.not_eq_true, sameObject_succ_iff]
    rintro (he | ⟨i', j', hi', hj', hbi, hbj, hcls, -⟩)
    · exact hab he
    · obtain rfl := Option.some.inj (hi.symm.trans hi')
      obtain rfl := Option.some.inj (hj.symm.trans hj')
      exact hapart ⟨hbi, hbj, hcls⟩

theorem sameObject_symm (depth : Nat) {a b : ObjectId} (hab : h.sameObject depth a b = true) :
    h.sameObject depth b a = true := by
  induction depth generalizing a b with
  | zero => exact beq_iff_eq.mpr (beq_iff_eq.mp hab).symm
  | succ depth ih =>
    rcases sameObject_succ_iff.mp hab with rfl | ⟨i, j, hi, hj, hbi, hbj, hcls, hfields⟩
    · exact hab
    · exact sameObject_succ_iff.mpr (.inr ⟨j, i, hj, hi, hbj, hbi, hcls.symm, sameAll_symm ih hfields⟩)

theorem sameObject_trans (depth : Nat) {a b c : ObjectId} (hab : h.sameObject depth a b = true)
    (hbc : h.sameObject depth b c = true) : h.sameObject depth a c = true := by
  induction depth generalizing a b c with
  | zero => exact beq_iff_eq.mpr ((beq_iff_eq.mp hab).trans (beq_iff_eq.mp hbc))
  | succ depth ih =>
    rcases sameObject_succ_iff.mp hab with rfl | ⟨i, j, hi, hj, hbi, -, hcls, hfields⟩
    · exact hbc
    rcases sameObject_succ_iff.mp hbc with rfl | ⟨j', l, hj', hl, -, hbl, hcls', hfields'⟩
    · exact hab
    obtain rfl := Option.some.inj (hj.symm.trans hj')
    exact sameObject_succ_iff.mpr
      (.inr ⟨i, l, hi, hl, hbi, hbl, hcls.trans hcls', sameAll_trans ih hfields hfields'⟩)

/-- **Equality is symmetric.** -/
theorem same_symm (hvw : h.same v w = true) : h.same w v = true :=
  sameValue_symm (sameObject_symm _) hvw

/-- **Equality is transitive.** -/
theorem same_trans (huv : h.same u v = true) (hvw : h.same v w = true) : h.same u w = true :=
  sameValue_trans (sameObject_trans _) huv hvw

/-! ## Values of the same contents -/

/-- There is no NaN among the contents of a value: it is none, and no field of what it holds by value, at
any depth, holds one. -/
def FreeOfNaN (h : Heap) (v : Value) : Prop :=
  v.isNaN = false ∧ ∀ {x k u}, h.Inside v x → h.field? x k = some u → u.isNaN = false

/-- What is inside of a field of an object that is held by value is inside of the object. -/
theorem Inside.of_field (hf : h.field? a k = some v) (ha : h.isByValue (.object a) = true)
    (hx : h.Inside v x) : h.Inside (.object a) x := by
  obtain ⟨y, rfl, hy, hp⟩ := hx
  exact ⟨a, rfl, ha, .head ⟨k, hf, hy⟩ hp⟩

/-- So its fields have no NaN among their contents, if it has none. -/
theorem FreeOfNaN.field (hfree : h.FreeOfNaN (.object a)) (ha : h.isByValue (.object a) = true)
    (hf : h.field? a k = some v) : h.FreeOfNaN v :=
  ⟨hfree.2 ⟨a, rfl, ha, .refl⟩ hf, fun hx hu => hfree.2 (hx.of_field hf ha) hu⟩

/-- It is enough that no field of any object holds a NaN. -/
theorem freeOfNaN_of_fields (hv : v.isNaN = false)
    (hall : ∀ i ∈ h.objects.toList, ∀ u ∈ i.fields, u.isNaN = false) : h.FreeOfNaN v := by
  refine ⟨hv, fun {x k u} _ hf => ?_⟩
  obtain ⟨i, hi, hu⟩ := field?_eq_some_iff.mp hf
  exact hall i (Array.mem_toList_iff.mpr (Array.mem_of_getElem? hi)) u (List.mem_of_getElem? hu)

/-- A depth that is enough for an object is more than enough for a later one. -/
theorem size_le_of_later (hdeep : h.objects.size ≤ depth + 1 + a) (hab : a < b) :
    h.objects.size ≤ depth + b :=
  calc h.objects.size ≤ depth + 1 + a := hdeep
    _ = depth + (a + 1) := by rw [Nat.add_assoc, Nat.add_comm 1]
    _ ≤ depth + b := Nat.add_le_add_left hab depth

/-- A value without a NaN is equal to all that have the same contents. They are compared in a heap in
which the value is as it was. -/
theorem sameValue_of_alike (ht : h.Tidy)
    (hold : ∀ {o i}, h.object? o = some i → h'.object? o = some i) (ha : h.Alike h' v u)
    (hfree : h.FreeOfNaN v)
    (hdeep : ∀ a, v = .object a → h.isByValue v = true → h.objects.size ≤ depth + a) :
    sameValue (h'.sameObject depth) u v = true := by
  induction ha generalizing depth with
  | null => rfl
  | scalar s => exact Scalar.same_self hfree.1
  | carrier c => exact beq_self_eq_true c
  | @shared o => exact sameObject_self h' depth o
  | @copied a b i j hi hj hs hb hf ih =>
    have ha : h.isByValue (.object a) = true := isByValue_object.mpr ⟨i, hi, hb⟩
    cases depth with
    | zero =>
      have hle := hdeep a rfl ha
      rw [Nat.zero_add] at hle
      exact absurd (lt_of_object? hi) (Nat.not_lt_of_le hle)
    | succ depth =>
      refine sameObject_succ_iff.mpr (.inr ⟨j, i, hj, hold hi, (congrArg Shape.byValue hs).trans hb, hb,
        congrArg Shape.cls hs, sameAll_iff.mpr ?_⟩)
      rw [List.forall₂_iff_get]
      refine ⟨congrArg Shape.size hs, fun k hk hk' => ?_⟩
      have hfield : h.field? a k = some i.fields[k] :=
        field?_eq_some_iff.mpr ⟨i, hi, List.getElem?_eq_getElem hk'⟩
      refine ih (List.getElem?_eq_getElem hk') (List.getElem?_eq_getElem hk) (hfree.field ha hfield)
        fun y hy hby => ?_
      -- what an object holds by value comes after it
      have hlater : a < y := ht.ordered (hy ▸ hfield) (hy ▸ hby)
      exact size_le_of_later (hdeep a rfl ha) hlater

/-- **A value without a NaN is equal to what is prepared for it to be stored.** -/
theorem same_assign (ht : h.Tidy) (hv : v.Known h) (hfree : h.FreeOfNaN v) :
    (h.assign v).2.same (h.assign v).1 v = true := by
  obtain ⟨hyields, hsame⟩ := assign_spec ht hv
  exact sameValue_of_alike ht hyields.old hsame hfree fun _ _ _ =>
    Nat.le_trans hyields.grows.size_le (Nat.le_add_right _ _)

/-! ## Comparing step by step -/

mutual

/-- Values are compared, and this ends with an answer. An object is equal to itself. Two objects are
compared field by field if both are held by value and are of one class, and are different otherwise.
Other values are compared at once. -/
inductive Compares (h : Heap) : Value → Value → Bool → Prop
  | self (a : ObjectId) : Compares h (.object a) (.object a) true
  | fields {a b : ObjectId} {i j : Instance} {r : Bool} (hne : a ≠ b) (hi : h.object? a = some i)
      (hj : h.object? b = some j) (hb : i.byValue = true ∧ j.byValue = true ∧ i.cls = j.cls)
      (hr : ComparesAll h i.fields j.fields r) : Compares h (.object a) (.object b) r
  | apart {a b : ObjectId} {i j : Instance} (hne : a ≠ b) (hi : h.object? a = some i)
      (hj : h.object? b = some j) (hb : ¬(i.byValue = true ∧ j.byValue = true ∧ i.cls = j.cls)) :
      Compares h (.object a) (.object b) false
  | flat {v w : Value} (hvw : ∀ a b, v = .object a → w ≠ .object b) :
      Compares h v w (sameValue (fun _ _ => false) v w)

/-- Lists are compared: they are different if they are of different lengths, and else compared place by
place, up to the first difference. -/
inductive ComparesAll (h : Heap) : List Value → List Value → Bool → Prop
  | uneven {vs ws : List Value} (hlength : vs.length ≠ ws.length) : ComparesAll h vs ws false
  | nil : ComparesAll h [] [] true
  | stop {v w : Value} {vs ws : List Value} (hvw : Compares h v w false) :
      ComparesAll h (v :: vs) (w :: ws) false
  | cons {v w : Value} {vs ws : List Value} {r : Bool} (hvw : Compares h v w true)
      (hr : ComparesAll h vs ws r) : ComparesAll h (v :: vs) (w :: ws) r

end

theorem sameAll_of_length_ne (hlength : vs.length ≠ ws.length) : sameAll same vs ws = false := by
  rw [← Bool.not_eq_true, sameAll_iff]
  exact fun hall => hlength hall.length_eq

/-- Lists are compared as `sameAll` says if their values are compared as `sameValue` says. -/
theorem comparesAll_iff
    (hvalues : ∀ v ∈ vs, ∀ w ∈ ws, ∀ r, h.Compares v w r ↔ r = sameValue same v w) :
    h.ComparesAll vs ws r ↔ r = sameAll same vs ws := by
  induction vs generalizing ws r with
  | nil =>
    cases ws with
    | nil =>
      constructor
      · intro hr
        cases hr with
        | uneven hne => exact absurd rfl hne
        | nil => rfl
      · rintro rfl
        exact .nil
    | cons w ws =>
      constructor
      · rintro ⟨⟩
        rfl
      · rintro rfl
        exact .uneven (by simp)
  | cons v vs ih =>
    cases ws with
    | nil =>
      constructor
      · rintro ⟨⟩
        rfl
      · rintro rfl
        exact .uneven (by simp)
    | cons w ws =>
      have hfirst := hvalues v List.mem_cons_self w List.mem_cons_self
      have hrest : ∀ {r}, h.ComparesAll vs ws r ↔ r = sameAll same vs ws := ih fun v hv w hw =>
        hvalues v (List.mem_cons_of_mem _ hv) w (List.mem_cons_of_mem _ hw)
      rw [sameAll]
      constructor
      · intro hr
        cases hr with
        | uneven hne => exact (sameAll_of_length_ne hne).symm
        | stop hvw => rw [← (hfirst false).mp hvw, Bool.false_and]
        | cons hvw hr => rw [← (hfirst true).mp hvw, Bool.true_and, hrest.mp hr]
      · rintro rfl
        cases hvw : sameValue same v w with
        | false => exact .stop ((hfirst false).mpr hvw.symm)
        | true => exact .cons ((hfirst true).mpr hvw.symm) (hrest.mpr (Bool.true_and _))

theorem compares_self_iff : h.Compares (.object a) (.object a) r ↔ r = true := by
  constructor
  · intro hr
    cases hr with
    | self => rfl
    | fields hne | apart hne => exact absurd rfl hne
    | flat hvw => exact absurd rfl (hvw a a rfl)
  · rintro rfl
    exact .self a

/-- Two objects are compared as their fields are if they may be equal. -/
theorem compares_objects_iff (hne : a ≠ b) (hi : h.object? a = some i) (hj : h.object? b = some j) :
    h.Compares (.object a) (.object b) r ↔
      (i.byValue = true ∧ j.byValue = true ∧ i.cls = j.cls) ∧ h.ComparesAll i.fields j.fields r ∨
        ¬(i.byValue = true ∧ j.byValue = true ∧ i.cls = j.cls) ∧ r = false := by
  constructor
  · intro hr
    cases hr with
    | self => exact absurd rfl hne
    | fields _ hi' hj' hb hr =>
      obtain rfl := Option.some.inj (hi.symm.trans hi')
      obtain rfl := Option.some.inj (hj.symm.trans hj')
      exact .inl ⟨hb, hr⟩
    | apart _ hi' hj' hb =>
      obtain rfl := Option.some.inj (hi.symm.trans hi')
      obtain rfl := Option.some.inj (hj.symm.trans hj')
      exact .inr ⟨hb, rfl⟩
    | flat hvw => exact absurd rfl (hvw a b rfl)
  · rintro (⟨hb, hr⟩ | ⟨hb, rfl⟩)
    · exact .fields hne hi hj hb hr
    · exact .apart hne hi hj hb

/-- Other values are compared at once. -/
theorem compares_flat_iff (hvw : ∀ a b, v = .object a → w ≠ .object b) :
    h.Compares v w r ↔ r = sameValue same v w := by
  have hflat : sameValue (fun _ _ => false) v w = sameValue same v w := by
    cases v with
    | object a =>
      cases w with
      | object b => exact absurd rfl (hvw a b rfl)
      | _ => rfl
    | _ => cases w <;> rfl
  rw [← hflat]
  constructor
  · intro hr
    cases hr with
    | flat _ => rfl
    | self a => exact absurd rfl (hvw a a rfl)
    | fields => exact absurd rfl (hvw _ _ rfl)
    | apart => exact absurd rfl (hvw _ _ rfl)
  · rintro rfl
    exact .flat hvw

/-- Known objects are compared as `sameObject` says, down to a depth that is enough for the first one. -/
theorem compares_object_iff (ht : h.Tidy) (depth : Nat) {a b : ObjectId} (ha : a < h.objects.size)
    (hb : b < h.objects.size)
    (hdeep : h.isByValue (.object a) = true → h.objects.size ≤ depth + a) {r : Bool} :
    h.Compares (.object a) (.object b) r ↔ r = h.sameObject depth a b := by
  by_cases hab : a = b
  · subst hab
    rw [sameObject_self, compares_self_iff]
  obtain ⟨i, hi⟩ := exists_object? ha
  obtain ⟨j, hj⟩ := exists_object? hb
  rw [compares_objects_iff hab hi hj]
  by_cases hclose : i.byValue = true ∧ j.byValue = true ∧ i.cls = j.cls
  · -- then the depth is not used up, and what the fields hold by value needs less of it
    have hle := hdeep (isByValue_object.mpr ⟨i, hi, hclose.1⟩)
    cases depth with
    | zero =>
      rw [Nat.zero_add] at hle
      exact absurd ha (Nat.not_lt_of_le hle)
    | succ depth =>
      have hfields : h.ComparesAll i.fields j.fields r ↔
          r = sameAll (h.sameObject depth) i.fields j.fields := by
        refine comparesAll_iff fun v hv w hw r => ?_
        obtain ⟨hknown, hlater⟩ := ht.fields hi v hv
        obtain ⟨hknown', -⟩ := ht.fields hj w hw
        by_cases hobjects : ∃ x y, v = .object x ∧ w = .object y
        · obtain ⟨x, y, rfl, rfl⟩ := hobjects
          exact compares_object_iff ht depth hknown hknown' fun hx =>
            size_le_of_later hle (hlater x rfl hx)
        · exact compares_flat_iff fun x y hx hy => hobjects ⟨x, y, hx, hy⟩
      rw [sameObject_of_close hab hi hj hclose, ← hfields]
      simp [hclose]
  · rw [sameObject_of_apart hab hi hj hclose]
    simp [hclose]

/-- **Each comparison of known values ends**, with the answer of `same`. -/
theorem compares_iff (ht : h.Tidy) (hv : v.Known h) (hw : w.Known h) :
    h.Compares v w r ↔ r = h.same v w := by
  by_cases hobjects : ∃ x y, v = .object x ∧ w = .object y
  · obtain ⟨x, y, rfl, rfl⟩ := hobjects
    exact compares_object_iff ht _ hv hw fun _ => Nat.le_add_right _ _
  · exact compares_flat_iff fun x y hx hy => hobjects ⟨x, y, hx, hy⟩

end Heap

end RecordForge
