import RecordForge.Proofs.Heap.Tidy

/-!
# What new objects are like

The *face* of an object is what it has in common with its copies: its class, how it is held, and what its
fields hold, except for objects, since those that are held by value are copied as well. Blanks have faces,
too. So whatever is placed, allocated or copied has a face that was there before, in a blank or in an object
(`Heap.Gains`). An object that is being filled has no fields yet; that is why the lemmas speak of the
objects that an operation brings, and of what is there before it.
-/

namespace RecordForge

/-- What a value has in common with what is stored for it: itself, unless it is an object. -/
def Value.face : Value → Option Value
  | .object _ => none
  | v => some v

/-- What an object has in common with its copies. -/
structure Face where
  cls : ClassId
  byValue : Bool
  fields : List (Option Value)

/-- The face of an object. -/
def Instance.face (i : Instance) : Face := ⟨i.cls, i.byValue, i.fields.map Value.face⟩

/-- The shape that comes with a face. -/
def Face.shape (f : Face) : Shape := ⟨f.cls, f.byValue, f.fields.length⟩

/-- The face of the value that is placed for a blank. -/
def Blank.face : Blank → Option Value
  | .null => some .null
  | .scalar s => some (.scalar s)
  | .record .. => none

/-- The objects that a blank needs have faces that satisfy `F`. -/
inductive Blank.Shows (F : Face → Prop) : Blank → Prop
  | null : Shows F .null
  | scalar (s : Scalar) : Shows F (.scalar s)
  | record {c : ClassId} {bs : List Blank} (hc : F ⟨c, true, bs.map Blank.face⟩)
      (hbs : ∀ b ∈ bs, Shows F b) : Shows F (.record c bs)

theorem Instance.face_shape (i : Instance) : i.face.shape = i.shape := by
  rw [face, Face.shape, shape, List.length_map]

/-- A value that is no object is the only one with its face. -/
theorem Value.eq_of_face {u v : Value} (hu : u.isLiteral = true) (h : v.face = u.face) : v = u := by
  cases u with
  | object o => cases hu
  | carrier c => cases hu
  | null => cases v <;> cases h; rfl
  | scalar s => cases v <;> cases h; rfl

/-- So are values that are no objects. -/
theorem Value.eq_of_faces {us vs : List Value} (hus : ∀ u ∈ us, u.isLiteral = true)
    (h : vs.map Value.face = us.map Value.face) : vs = us := by
  induction us generalizing vs with
  | nil => exact List.map_eq_nil_iff.mp h
  | cons u us ih =>
    obtain ⟨v, vs, rfl, hv, hvs⟩ := List.map_eq_cons_iff.mp h
    rw [Value.eq_of_face (hus u List.mem_cons_self) hv,
      ih (fun u hu => hus u (List.mem_cons_of_mem _ hu)) hvs]

theorem Blank.Shows.imp {F F' : Face → Prop} (h : ∀ face, F face → F' face) {b : Blank}
    (hb : b.Shows F) : b.Shows F' := by
  induction hb with
  | null => exact .null
  | scalar s => exact .scalar s
  | record hc _ ih => exact .record (h _ hc) ih

namespace Heap

/-- An operation leaves the objects that are there as they are, and brings objects with faces that
satisfy `F`. -/
structure Gains (F : Face → Prop) (h h' : Heap) : Prop where
  old : ∀ {o i}, h.object? o = some i → h'.object? o = some i
  new : ∀ {o i}, h.objects.size ≤ o → h'.object? o = some i → F i.face

variable {F F' : Face → Prop} {h h' h'' : Heap} {o : ObjectId} {i : Instance} {v : Value}
variable {vs : List Value} {cls : ClassId} {byValue : Bool}

namespace Gains

theorem refl (h : Heap) : h.Gains F h :=
  ⟨id, fun hlo ho => absurd (lt_of_object? ho) (Nat.not_lt_of_le hlo)⟩

theorem imp (hg : h.Gains F h') (hF : ∀ face, F face → F' face) : h.Gains F' h' :=
  ⟨hg.old, fun hlo ho => hF _ (hg.new hlo ho)⟩

theorem trans (hg : h.Gains F h') (hg' : h'.Gains F h'') : h.Gains F h'' := by
  refine ⟨fun ho => hg'.old (hg.old ho), fun {o i} hlo ho => ?_⟩
  by_cases hnew : h'.objects.size ≤ o
  · exact hg'.new hnew ho
  · obtain ⟨i', hi'⟩ := exists_object? (Nat.lt_of_not_le hnew)
    obtain rfl := Option.some.inj ((hg'.old hi').symm.trans ho)
    exact hg.new hlo hi'

/-- What holds of the objects that are there holds of all. -/
theorem all (hg : h.Gains F h') (hf : ∀ {o i}, h.object? o = some i → F i.face) {o : ObjectId}
    {i : Instance} (ho : h'.object? o = some i) : F i.face := by
  by_cases hold : o < h.objects.size
  · obtain ⟨i', hi'⟩ := exists_object? hold
    obtain rfl := Option.some.inj ((hg.old hi').symm.trans ho)
    exact hf hi'
  · exact hg.new (Nat.le_of_not_lt hold) ho

/-- An object that is reserved, then filled once its fields are there. -/
theorem object (hc : F ⟨cls, byValue, vs.map Value.face⟩)
    (hg : (h.reserve cls byValue).2.Gains F h') : h.Gains F (h'.fill h.objects.size vs) := by
  have hself : h'.object? h.objects.size = some ⟨cls, byValue, []⟩ := by
    refine hg.old ?_
    rw [object?_reserve, if_pos rfl]
  refine ⟨fun {o i} ho => ?_, fun {o i} hlo ho => ?_⟩
  · have hne : o ≠ h.objects.size := Nat.ne_of_lt (lt_of_object? ho)
    rw [object?_fill, if_neg hne]
    refine hg.old ?_
    rw [object?_reserve, if_neg hne, ho]
  · rw [object?_fill, hself] at ho
    split at ho
    · obtain rfl := Option.some.inj ho
      exact hc
    · next hne =>
      refine hg.new ?_ ho
      rw [size_reserve]
      exact Nat.lt_of_le_of_ne hlo (Ne.symm hne)

end Gains

/-! ## Blanks -/

theorem face_place (h : Heap) (b : Blank) : (h.place b).1.face = b.face := by
  cases b <;> rw [place] <;> rfl

theorem faces_placeAll (h : Heap) (bs : List Blank) :
    (h.placeAll bs).1.map Value.face = bs.map Blank.face := by
  induction bs generalizing h with
  | nil => rfl
  | cons b bs ih =>
    rw [placeAll]
    exact congrArg₂ List.cons (face_place h b) (ih (h.place b).2)

mutual

theorem place_gains (h : Heap) {b : Blank} (hb : b.Shows F) : h.Gains F (h.place b).2 := by
  cases b with
  | null => exact .refl h
  | scalar s => exact .refl h
  | record c bs =>
    cases hb with
    | record hc hbs =>
      refine .object ?_ (placeAll_gains (h.reserve c true).2 bs hbs)
      rwa [faces_placeAll]
termination_by sizeOf b

theorem placeAll_gains (h : Heap) (bs : List Blank) (hbs : ∀ b ∈ bs, b.Shows F) :
    h.Gains F (h.placeAll bs).2 := by
  cases bs with
  | nil => exact .refl h
  | cons b bs =>
    exact (place_gains h (hbs b List.mem_cons_self)).trans
      (placeAll_gains (h.place b).2 bs fun b hb => hbs b (List.mem_cons_of_mem _ hb))
termination_by sizeOf bs

end

theorem allocate_gains {bs : List Blank} (hc : F ⟨cls, byValue, bs.map Blank.face⟩)
    (hbs : ∀ b ∈ bs, b.Shows F) : h.Gains F (h.allocate cls byValue bs).2 := by
  refine .object ?_ (placeAll_gains (h.reserve cls byValue).2 bs hbs)
  rwa [faces_placeAll]

/-! ## Copies -/

theorem face_assignWith (copy : Heap → ObjectId → ObjectId × Heap) (h : Heap) (v : Value) :
    (h.assignWith copy v).1.face = v.face := by
  cases v with
  | object o =>
    rw [assignWith]
    split <;> rfl
  | _ => rfl

theorem faces_assignAll (copy : Heap → ObjectId → ObjectId × Heap) (h : Heap) (vs : List Value) :
    (h.assignAll copy vs).1.map Value.face = vs.map Value.face := by
  induction vs generalizing h with
  | nil => rfl
  | cons v vs ih =>
    rw [assignAll]
    exact congrArg₂ List.cons (face_assignWith copy h v) (ih (h.assignWith copy v).2)

/-- In the objects of `B`, which are among those of `h`, `copy` finds only faces that satisfy `F`. -/
def CopiesFaces (F : Face → Prop) (B : Heap) (copy : Heap → ObjectId → ObjectId × Heap) : Prop :=
  ∀ (h : Heap) (o : ObjectId), (∀ {y i}, B.object? y = some i → h.object? y = some i) →
    o < B.objects.size → h.Gains F (copy h o).2

theorem assignWith_gains {B : Heap} {copy : Heap → ObjectId → ObjectId × Heap}
    (hcopy : CopiesFaces F B copy) (hB : ∀ {y i}, B.object? y = some i → h.object? y = some i)
    (hv : v.Known B) : h.Gains F (h.assignWith copy v).2 := by
  cases v with
  | object o =>
    rw [assignWith]
    split
    · exact hcopy h o hB hv
    · exact .refl h
  | null => exact .refl h
  | scalar s => exact .refl h
  | carrier c => exact .refl h

theorem assignAll_gains {B : Heap} {copy : Heap → ObjectId → ObjectId × Heap}
    (hcopy : CopiesFaces F B copy) (hB : ∀ {y i}, B.object? y = some i → h.object? y = some i)
    (hvs : ∀ v ∈ vs, v.Known B) : h.Gains F (h.assignAll copy vs).2 := by
  induction vs generalizing h with
  | nil => exact .refl h
  | cons v vs ih =>
    have hfirst := assignWith_gains hcopy hB (hvs v List.mem_cons_self)
    exact hfirst.trans (ih (fun hi => hfirst.old (hB hi)) fun u hu => hvs u (List.mem_cons_of_mem _ hu))

/-- A copy has the faces of what is copied. Only what was there before is copied, and that is whole. -/
theorem copyTo_faces {B : Heap} (hB : B.Tidy) (hf : ∀ {o i}, B.object? o = some i → F i.face)
    (depth : Nat) : CopiesFaces F B (copyTo depth) := by
  induction depth with
  | zero => exact fun h _ _ _ => .refl h
  | succ depth ih =>
    intro h o hold hlt
    obtain ⟨i, hi⟩ := exists_object? hlt
    simp only [copyTo, hold hi]
    refine .object ?_ (assignAll_gains ih (fun {y j} hj => ?_) fun v hv => ?_)
    · rw [faces_assignAll]
      exact hf hi
    · rw [object?_reserve, if_neg (Nat.ne_of_lt (lt_of_object? (hold hj)))]
      exact hold hj
    · obtain ⟨k, hk⟩ := List.mem_iff_getElem?.mp hv
      exact hB.known (field?_eq_some_iff.mpr ⟨i, hi, hk⟩)

section
variable (ht : h.Tidy) (hf : ∀ {o i}, h.object? o = some i → F i.face)
include ht hf

theorem copy_gains (ho : o < h.objects.size) : h.Gains F (h.copy o).2 :=
  copyTo_faces ht hf h.objects.size h o id ho

theorem assign_gains (hv : v.Known h) : h.Gains F (h.assign v).2 :=
  assignWith_gains (fun h' o => copyTo_faces ht hf h'.objects.size h' o) id hv

end

end Heap

end RecordForge
