import RecordForge.Proofs.Heap.Faces

/-!
# The shapes of objects

Whatever is placed, allocated or copied has the shapes that its blanks say, or those of what is copied,
since it has their faces. So if all objects of a heap are of shapes that satisfy a predicate, they go on to
be (`Heap.Formed`), and so they do when a value is stored, which changes faces but no shapes.
-/

namespace RecordForge

/-- The objects that a blank needs are of shapes that satisfy `C`. -/
inductive Blank.Formed (C : Shape → Prop) : Blank → Prop
  | null : Formed C .null
  | scalar (s : Scalar) : Formed C (.scalar s)
  | record {c : ClassId} {bs : List Blank} (hc : C ⟨c, true, bs.length⟩) (hbs : ∀ b ∈ bs, Formed C b) :
      Formed C (.record c bs)

theorem Blank.Formed.shows {C : Shape → Prop} {b : Blank} (hb : b.Formed C) :
    b.Shows fun face => C face.shape := by
  induction hb with
  | null => exact .null
  | scalar s => exact .scalar s
  | @record c bs hc _ ih =>
    refine .record ?_ ih
    rwa [Face.shape, List.length_map]

namespace Heap

/-- All objects are of shapes that satisfy `C`. -/
def Formed (C : Shape → Prop) (h : Heap) : Prop :=
  ∀ (o : ObjectId) (i : Instance), h.object? o = some i → C i.shape

/-- An operation leaves the objects that are there as they are, and brings objects of shapes that satisfy
`C`. -/
structure Brings (C : Shape → Prop) (h h' : Heap) : Prop where
  old : ∀ {o i}, h.object? o = some i → h'.object? o = some i
  new : ∀ {o i}, h.objects.size ≤ o → h'.object? o = some i → C i.shape

variable {C : Shape → Prop} {h h' : Heap} {o : ObjectId} {v : Value} {cls : ClassId} {byValue : Bool}
variable {k : Nat}

theorem Brings.refl (h : Heap) : h.Brings C h :=
  ⟨id, fun hlo ho => absurd (lt_of_object? ho) (Nat.not_lt_of_le hlo)⟩

theorem Brings.formed (hb : h.Brings C h') (hf : h.Formed C) : h'.Formed C := by
  intro o i ho
  by_cases hold : o < h.objects.size
  · obtain ⟨i', hi'⟩ := exists_object? hold
    obtain rfl := Option.some.inj ((hb.old hi').symm.trans ho)
    exact hf o _ hi'
  · exact hb.new (Nat.le_of_not_lt hold) ho

/-- Objects with faces bring the shapes of these. -/
theorem Gains.brings (hg : h.Gains (fun face => C face.shape) h') : h.Brings C h' :=
  ⟨hg.old, fun hlo ho => (Instance.face_shape _) ▸ hg.new hlo ho⟩

theorem Formed.face_shape (hf : h.Formed C) {i : Instance} (ho : h.object? o = some i) :
    C i.face.shape := by
  rw [Instance.face_shape]
  exact hf o i ho

theorem place_brings (h : Heap) {b : Blank} (hb : b.Formed C) : h.Brings C (h.place b).2 :=
  (place_gains h hb.shows).brings

theorem allocate_brings {bs : List Blank} (hc : C ⟨cls, byValue, bs.length⟩)
    (hbs : ∀ b ∈ bs, b.Formed C) : h.Brings C (h.allocate cls byValue bs).2 := by
  refine (allocate_gains ?_ fun b hb => (hbs b hb).shows).brings
  rwa [Face.shape, List.length_map]

theorem copy_brings (ht : h.Tidy) (hf : h.Formed C) (ho : o < h.objects.size) :
    h.Brings C (h.copy o).2 := (copy_gains ht hf.face_shape ho).brings

theorem assign_brings (ht : h.Tidy) (hf : h.Formed C) (hv : v.Known h) : h.Brings C (h.assign v).2 :=
  (assign_gains ht hf.face_shape hv).brings

/-- A store keeps the shapes. -/
theorem Formed.store (hf : h.Formed C) (ht : h.Tidy) (hv : v.Known h) (hs : h.store o k v = some h') :
    h'.Formed C := by
  obtain ⟨i, -, -, rfl⟩ := store_eq_some_iff.mp hs
  have hassign := (assign_brings ht hf hv).formed hf
  intro a j ha
  obtain ⟨j₀, hj₀⟩ := exists_object? (h := (h.assign v).2) (o := a) (by
    have hlt := lt_of_object? ha
    rwa [size_put] at hlt)
  obtain ⟨j', hj', hs⟩ := (put_grows (h.assign v).2 o k (h.assign v).1).objects hj₀
  obtain rfl := Option.some.inj (hj'.symm.trans ha)
  exact hs ▸ hassign a j₀ hj₀

end Heap

end RecordForge
