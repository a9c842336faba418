import RecordForge.Proofs.Access.Deeds
import RecordForge.Proofs.Heap.Duplicates

/-!
# Copying and comparing what is there

In each world that comes about, also in the middle of a run, values can be compared and copied
(`World.copying_and_equality`). Both follow fields that hold objects by value, and these do not run in
circles, even where references do. What is prepared to be stored is equal to the value, unless that has
a NaN among its contents, and shares no part with it.
-/

namespace RecordForge

/-- **Copies and equality.** In each world that comes about, also in the middle of a run, each comparison
of values and each copy ends, as `same`, `assign` and `copy` say. Equality is symmetric and transitive.
What is prepared for a value is equal to it if there is no NaN among its contents. For an object that is
held by value a copy is prepared, and no object that is held by value, at any depth, is part of both. -/
theorem World.copying_and_equality {w₀ w : World} (hw : w₀.Reached) (hguards : w₀.Guards w) :
    (∀ u v, u.Known w.heap → v.Known w.heap → ∀ r, w.heap.Compares u v r ↔ r = w.heap.same u v) ∧
    (∀ v, v.Known w.heap → ∀ r, w.heap.Prepares v r ↔ r = w.heap.assign v) ∧
    (∀ o, o < w.heap.objects.size → ∀ r, w.heap.Duplicates o r ↔ r = w.heap.copy o) ∧
    (∀ u v, w.heap.same u v = true → w.heap.same v u = true) ∧
    (∀ u v x, w.heap.same u v = true → w.heap.same v x = true → w.heap.same u x = true) ∧
    (∀ v, v.Known w.heap → w.heap.FreeOfNaN v →
      (w.heap.assign v).2.same (w.heap.assign v).1 v = true) ∧
    ∀ o, w.heap.isByValue (.object o) = true →
      w.heap.assign (.object o) = (.object (w.heap.copy o).1, (w.heap.copy o).2) ∧
      ∀ x, (w.heap.copy o).2.HasPart (w.heap.copy o).1 x → ¬(w.heap.copy o).2.HasPart o x := by
  have ht : w.heap.Tidy := (hguards.settled hw.settled).tidy.heap
  refine ⟨fun u v hu hv r => Heap.compares_iff ht hu hv, fun v hv r => Heap.prepares_iff ht hv,
    fun o ho r => Heap.duplicates_iff ht ho, fun u v => Heap.same_symm, fun u v x => Heap.same_trans,
    fun v hv hfree => Heap.same_assign ht hv hfree, fun o ho => ⟨?_, fun x hx => ?_⟩⟩
  · exact Heap.assignWith_of_isByValue ho
  · exact Heap.copy_apart ht (Heap.lt_of_isByValue ho) hx

namespace Scene

/-- Drafts of a class of nodes, and of a class of marks, which are held by value and refer to nodes. -/
def ringDrafts : List ClassDraft :=
  [{ name := "Ring.Node", members := [.field "Next" .any true, .defaultConstructor] },
   { name := "Ring.Mark", isValueType := true
     members := [.field "Home" (.cls 0) true, .field "Weight" (.scalar .double) true,
       .defaultConstructor] }]

/-- The world with a node and a mark. -/
def ringParts : World :=
  let w : World := { schema := addDrafts {} ringDrafts }
  ((Deed.construct (.cls 1) 0 []).run 4 ((Deed.construct (.cls 0) 0 []).run 4 w).2).2

/-- The mark refers to the node. -/
def ringOpen : World := ((Deed.setField 1 0 (.object 0)).run 4 ringParts).2

/-- The node holds a copy of the mark, which refers to the node. -/
def ring : World := ((Deed.setField 0 0 (.object 1)).run 4 ringOpen).2

theorem ring_reached : ring.Reached := by
  have hdeclare : CanDeclare {} ringDrafts := by decide +kernel
  have hnothing : ∀ {w : World} {t : Ty}, (Deed.construct t 0 []).Fits w :=
    fun _ hv => (List.not_mem_nil hv).elim
  have hparts : ringParts.Reached :=
    ((declare_reached .refl hdeclare (by decide +kernel)).tail (.deed 4 hnothing)).tail
      (.deed 4 hnothing)
  -- nothing is kept by statics, so all objects can be come by
  have hhanded : ∀ {w : World} {o}, w.statics = [] → o < w.heap.objects.size → w.Handed (.object o) := by
    refine fun hs ho => ⟨ho, fun _ hk => ?_⟩
    obtain ⟨-, _, _, _, -, -, hmem⟩ := hk
    rw [hs] at hmem
    cases hmem
  have hfits : ∀ {w : World} {o o'}, w.statics = [] → o < w.heap.objects.size →
      o' < w.heap.objects.size → (Deed.setField o 0 (.object o')).Fits w := by
    intro w o o' hs ho ho' v hv
    rcases List.mem_pair.mp hv with rfl | rfl
    · exact hhanded hs ho
    · exact hhanded hs ho'
  have hopen : ringOpen.Reached :=
    hparts.tail (.deed 4 (hfits rfl (by decide +kernel) (by decide +kernel)))
  exact hopen.tail (.deed 4 (hfits rfl (by decide +kernel) (by decide +kernel)))

/-- The node and the mark that it holds run in a circle. That mark is equal to the mark that it is a copy
of, and can be copied again. -/
theorem copying_and_equality_ring :
    ring.heap.field? 0 0 = some (.object 2) ∧ ring.heap.field? 2 0 = some (.object 0) ∧
      ring.heap.Compares (.object 1) (.object 2) true ∧
      ring.heap.Duplicates 2 (3, (ring.heap.copy 2).2) ∧
      (ring.heap.assign (.object 2)).2.same (.object 3) (.object 2) = true ∧
      ∀ x, (ring.heap.copy 2).2.HasPart 3 x → ¬(ring.heap.copy 2).2.HasPart 2 x := by
  obtain ⟨hcompares, -, hduplicates, -, -, hsame, hparts⟩ :=
    World.copying_and_equality ring_reached (.refl ring)
  have hknown : ∀ o < 3, o < ring.heap.objects.size := by decide +kernel
  have hfree : ring.heap.FreeOfNaN (.object 2) := Heap.freeOfNaN_of_fields rfl (by decide +kernel)
  refine ⟨by decide +kernel, by decide +kernel,
    (hcompares (.object 1) (.object 2) (hknown 1 (by decide)) (hknown 2 (by decide)) true).mpr
      (by decide +kernel),
    (hduplicates 2 (hknown 2 (by decide)) _).mpr rfl, ?_, (hparts 2 (by decide +kernel)).2⟩
  exact hsame (.object 2) (hknown 2 (by decide)) hfree

end Scene

end RecordForge
