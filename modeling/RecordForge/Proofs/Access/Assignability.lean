import RecordForge.Proofs.Layout.OwnedSlots

/-!
# What can stand for what

In each world that comes about, types are ordered by what can stand where another is expected
(`Schema.isAssignable`): a class can stand for each of its bases, which are fewer for each of these, and
everything for the root. Casts keep to this order: what may be stored where a type is expected may be
stored as it is where a type above is expected, and so may null, since bases are shared by reference
(`World.assignability`).
-/

namespace RecordForge

namespace Schema

variable {s : Schema} {h : Heap} {t u : Ty} {v x : Value}

/-- Types that can stand for each other are the same: a type has more bases than one above it. -/
theorem Formed.isAssignable_antisymm (hs : s.Formed) (htu : s.isAssignable t u = true)
    (hut : s.isAssignable u t = true) : t = u := by
  rcases isAssignable_iff.mp htu with rfl | hu
  · -- nothing but the root is at or above the root
    rcases isAssignable_iff.mp hut with ht | ht
    · exact ht
    · exact List.mem_singleton.mp ht
  rcases isAssignable_iff.mp hut with rfl | ht
  · exact (List.mem_singleton.mp hu).symm
  rcases List.mem_cons.mp hu with rfl | hu
  · rfl
  rcases List.mem_cons.mp ht with ht | ht
  · exact ht
  · have hfewer := (hs.bases_suffix hu).length_le
    have hfewer' := (hs.bases_suffix ht).length_le
    rw [List.length_cons] at hfewer hfewer'
    omega

/-- Everything may be stored where the root is expected, null where no value has to be, and other values
where the type admits them; a value is stored as it is. -/
theorem cast_eq_ok_iff : s.cast h v t = .ok x ↔ x = v ∧ (t = .any ∨
    v.isNull = true ∧ s.excludesNull t = false ∨ v.isNull = false ∧ s.admits h t v = true) := by
  by_cases hany : t = .any
  · rw [cast, if_pos hany]
    simp [hany, @eq_comm _ v x]
  cases hnull : v.isNull with
  | true => cases hexcludes : s.excludesNull t <;> simp [cast, hany, hnull, hexcludes, @eq_comm _ v x]
  | false => cases hadmits : s.admits h t v <;> simp [cast, hany, hnull, hadmits, @eq_comm _ v x]

/-- What may be stored where a type is expected may be stored where a type above is expected. -/
theorem Formed.cast_of_isAssignable (hs : s.Formed) (htu : s.isAssignable t u = true)
    (hx : s.cast h v t = .ok x) : s.cast h v u = .ok x := by
  rcases isAssignable_iff.mp htu with rfl | hu
  · exact cast_eq_ok_iff.mpr ⟨eq_of_cast hx, .inl rfl⟩
  rcases List.mem_cons.mp hu with rfl | hbase
  · exact hx
  -- both are classes, and the one above is shared by reference
  obtain ⟨c, d, n, rfl, hc, rfl, hn⟩ := Formed.classes_of_mem_bases hbase
  obtain ⟨d', hd', hreference, -⟩ := hs.exists_of_mem_bases hc hn
  obtain ⟨rfl, hany | ⟨hnull, -⟩ | ⟨hnull, hadmits⟩⟩ := cast_eq_ok_iff.mp hx
  · cases hany
  · have hshared : s.excludesNull (.cls n) = false := by
      rw [excludesNull, isValueType, show s.decl? (.cls n) = some d' from hd', Option.any_some,
        hreference]
      all_goals exact fun _ h => nomatch h
    exact cast_eq_ok_iff.mpr ⟨rfl, .inr (.inl ⟨hnull, hshared⟩)⟩
  · cases x with
    | object o =>
      have habove : s.isAssignable (classOf h o) (.cls n) = true := hs.isAssignable_trans hadmits htu
      exact cast_eq_ok_iff.mpr ⟨rfl, .inr (.inr ⟨hnull, habove⟩)⟩
    | null | scalar _ | carrier _ => cases hadmits

end Schema

/-- **What can stand for what is a partial order that casts respect.** In each world that comes about, also
in the middle of a run, each type can stand for itself, for what the types that it can stand for can stand
for, and for the root; and types that can stand for each other are the same. Where a value may be stored,
it is stored as it is, and it may be stored as it is where any type above is expected; so may null. -/
theorem World.assignability {w₀ w : World} (hw : w₀.Reached) (hguards : w₀.Guards w) :
    (∀ t, w.schema.isAssignable t t = true) ∧
    (∀ t u v, w.schema.isAssignable t u = true → w.schema.isAssignable u v = true →
      w.schema.isAssignable t v = true) ∧
    (∀ t u, w.schema.isAssignable t u = true → w.schema.isAssignable u t = true → t = u) ∧
    (∀ t, w.schema.isAssignable t .any = true) ∧
    ∀ v t u, w.schema.isAssignable t u = true → ∀ x, w.schema.cast w.heap v t = .ok x →
      x = v ∧ w.schema.cast w.heap v u = .ok v := by
  have hs : w.schema.Formed := (hguards.settled hw.settled).formed.schema
  refine ⟨fun t => Schema.isAssignable_of_mem_ancestors List.mem_cons_self,
    fun t u v => hs.isAssignable_trans, fun t u => hs.isAssignable_antisymm,
    fun t => Schema.isAssignable_iff.mpr (.inl rfl), fun v t u htu x hx => ?_⟩
  obtain rfl := Schema.eq_of_cast hx
  exact ⟨rfl, hs.cast_of_isAssignable htu hx⟩

namespace Scene

/-- The implementation of a coach is below that of a cart, and so a coach may be stored where a cart is
expected; so may null. -/
theorem assignability_coach :
    coach.schema.isAssignable (.cls 4) (.cls 1) = true ∧
      coach.schema.cast coach.heap (.object 0) (.cls 1) = .ok (.object 0) ∧
      coach.schema.cast coach.heap .null (.cls 1) = .ok .null := by
  obtain ⟨-, htrans, -, -, hcast⟩ := World.assignability coach_reached (.refl coach)
  have hbelow : coach.schema.isAssignable (.cls 4) (.cls 2) = true := by decide +kernel
  have habove : coach.schema.isAssignable (.cls 2) (.cls 1) = true := by decide +kernel
  have hstands := htrans _ _ _ hbelow habove
  have hcoach : coach.schema.cast coach.heap (.object 0) (.cls 4) = .ok (.object 0) :=
    Schema.cast_eq_ok_iff.mpr ⟨rfl, .inr (.inr ⟨rfl, by decide +kernel⟩)⟩
  have hnull : coach.schema.cast coach.heap .null (.cls 4) = .ok .null :=
    Schema.cast_eq_ok_iff.mpr ⟨rfl, .inr (.inl ⟨rfl, by decide +kernel⟩)⟩
  exact ⟨hstands, (hcast _ _ _ hstands _ hcoach).2, (hcast _ _ _ hstands _ hnull).2⟩

end Scene

end RecordForge
