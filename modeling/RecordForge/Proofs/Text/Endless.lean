import Mathlib.Data.Set.Card
import Mathlib.Logic.Relation
import RecordForge.Diagnostics

/-!
# Values whose text has no end

The detailed text of a carrier lists what the carrier holds, be it carriers again. So there is no such text
exactly if a carrier is come to that holds itself (`Schema.detailed_eq_none_iff`): along any other chain the
carriers are different, and there are no more of them than the heap has.
-/

namespace RecordForge

open Relation

/-- Each entry of a list has an image if the list has one. -/
theorem mapM_isSome_iff {α β : Type} {f : α → Option β} {xs : List α} :
    (xs.mapM f).isSome = true ↔ ∀ x ∈ xs, (f x).isSome = true := by
  induction xs with
  | nil => simp
  | cons x xs ih =>
    rw [List.mapM_cons, List.forall_mem_cons, ← ih]
    cases f x with
    | none => simp
    | some y => cases xs.mapM f <;> simp

variable {h : Heap} {c d : CarrierId} {v : Value} {vs : List Value}

/-! ## Carriers that hold carriers -/

/-- A carrier holds another one. -/
def Heap.Carries (h : Heap) (c d : CarrierId) : Prop :=
  ∃ vs, h.parameters? c = some vs ∧ .carrier d ∈ vs

/-- From a value a carrier is come to that holds itself, be it by way of others. -/
def Value.Endless (h : Heap) (v : Value) : Prop :=
  ∃ c d, v = .carrier c ∧ ReflTransGen h.Carries c d ∧ TransGen h.Carries d d

/-- What leads to a carrier that holds itself holds something that does. -/
theorem Value.Endless.exists_mem (hv : v.Endless h) : ∃ c vs, v = .carrier c ∧
    h.parameters? c = some vs ∧ ∃ u ∈ vs, u.Endless h := by
  obtain ⟨c, d, rfl, hreach, hcycle⟩ := hv
  obtain ⟨e, ⟨vs, hvs, hmem⟩, hrest⟩ : ∃ e, h.Carries c e ∧ ReflTransGen h.Carries e d := by
    rcases ReflTransGen.cases_head hreach with rfl | ⟨e, hfirst, hrest⟩
    · obtain ⟨e, hfirst, hback⟩ := TransGen.head'_iff.mp hcycle
      exact ⟨e, hfirst, hback⟩
    · exact ⟨e, hfirst, hrest⟩
  exact ⟨c, vs, rfl, hvs, .carrier e, hmem, e, d, rfl, hrest, hcycle⟩

/-- A carrier that holds such a value leads to the same carrier. -/
theorem Value.Endless.of_carries (hd : (Value.carrier d).Endless h) (hc : h.Carries c d) :
    (Value.carrier c).Endless h := by
  obtain ⟨d', e, hd', hreach, hcycle⟩ := hd
  obtain rfl := Value.carrier.inj hd'
  exact ⟨c, e, rfl, .head hc hreach, hcycle⟩

/-- The carriers with parameters that are come to from a carrier. -/
def Heap.chained (h : Heap) (c : CarrierId) : Set CarrierId :=
  {d | ReflTransGen h.Carries c d ∧ (h.parameters? d).isSome = true}

namespace Heap

theorem chained_subset : h.chained c ⊆ (Finset.range h.carriers.size : Finset CarrierId) := by
  rintro d ⟨-, hd⟩
  rw [Finset.coe_range, Set.mem_Iio]
  by_contra hge
  simp [parameters?, Array.getElem?_eq_none (Nat.le_of_not_lt hge)] at hd

theorem finite_chained : (h.chained c).Finite := (Finset.finite_toSet _).subset chained_subset

theorem ncard_chained_le : (h.chained c).ncard ≤ h.carriers.size := by
  refine (Set.ncard_le_ncard chained_subset (Finset.finite_toSet _)).trans ?_
  rw [Set.ncard_coe_finset, Finset.card_range]

/-- From what a carrier holds fewer carriers are come to, unless the carrier is one of them. -/
theorem ncard_chained_lt (hc : ¬(Value.carrier c).Endless h) (hd : h.Carries c d) :
    (h.chained d).ncard < (h.chained c).ncard := by
  refine Set.ncard_lt_ncard (Set.ssubset_iff_of_subset ?_ |>.mpr ⟨c, ⟨.refl, ?_⟩, ?_⟩) finite_chained
  · exact fun e he => ⟨.head hd he.1, he.2⟩
  · obtain ⟨vs, hvs, -⟩ := hd
    rw [hvs]
    rfl
  · exact fun hback => hc ⟨c, c, rfl, .refl, TransGen.head' hd hback.1⟩

end Heap

/-! ## Texts -/

namespace Schema

variable {s : Schema} {lib : TextLibrary} {n : Nat}

/-- Only a carrier with parameters is without a text: at no depth, or if one of the parameters is. -/
theorem detailedTo_eq_none_iff : s.detailedTo h lib n v = none ↔ ∃ c vs, v = .carrier c ∧
    h.parameters? c = some vs ∧ ∀ m, n = m + 1 → ∃ u ∈ vs, s.detailedTo h lib m u = none := by
  cases v with
  | null => simp [detailedTo]
  | scalar x => simp [detailedTo]
  | object o => simp [detailedTo]
  | carrier c =>
    cases hvs : h.parameters? c with
    | none => cases n <;> simp [detailedTo, hvs]
    | some vs =>
      cases n with
      | zero => simp [detailedTo, hvs]
      | succ n =>
        have hmap : (vs.mapM (s.detailedTo h lib n)).isSome = true ↔
            ∀ u ∈ vs, (s.detailedTo h lib n u).isSome = true := mapM_isSome_iff
        have hnone : s.detailedTo h lib (n + 1) (.carrier c) = none ↔
            vs.mapM (s.detailedTo h lib n) = none := by simp [detailedTo, hvs]
        rw [hnone, ← Option.not_isSome_iff_eq_none, hmap]
        simp [hvs]

theorem detailedTo_of_endless (hv : v.Endless h) : s.detailedTo h lib n v = none := by
  induction n generalizing v with
  | zero =>
    obtain ⟨c, vs, rfl, hvs, -⟩ := hv.exists_mem
    exact detailedTo_eq_none_iff.mpr ⟨c, vs, rfl, hvs, fun _ h => nomatch h⟩
  | succ n ih =>
    obtain ⟨c, vs, rfl, hvs, u, hu, hendless⟩ := hv.exists_mem
    refine detailedTo_eq_none_iff.mpr ⟨c, vs, rfl, hvs, fun m hm => ?_⟩
    obtain rfl := Nat.succ.inj hm
    exact ⟨u, hu, ih hendless⟩

/-- A depth of as many carriers as are come to is enough. -/
theorem detailedTo_of_not_endless (hc : ¬(Value.carrier c).Endless h)
    (hn : (h.chained c).ncard ≤ n) : s.detailedTo h lib n (.carrier c) ≠ none := by
  induction n generalizing c with
  | zero =>
    intro hnone
    obtain ⟨c', vs, hc', hvs, -⟩ := detailedTo_eq_none_iff.mp hnone
    obtain rfl := Value.carrier.inj hc'
    have hempty : h.chained c = ∅ := (Set.ncard_eq_zero Heap.finite_chained).mp (Nat.le_zero.mp hn)
    have hmem : c ∈ h.chained c := ⟨.refl, by rw [hvs]; rfl⟩
    rw [hempty] at hmem
    exact hmem
  | succ n ih =>
    intro hnone
    obtain ⟨c', vs, hc', hvs, hmem⟩ := detailedTo_eq_none_iff.mp hnone
    obtain rfl := Value.carrier.inj hc'
    obtain ⟨u, hu, hnone⟩ := hmem n rfl
    obtain ⟨d, -, rfl, -⟩ := detailedTo_eq_none_iff.mp hnone
    have hcarries : h.Carries c d := ⟨vs, hvs, hu⟩
    have hlt := Heap.ncard_chained_lt hc hcarries
    exact ih (fun hd => hc (hd.of_carries hcarries)) (by omega) hnone

/-- **Only a circle of carriers has no text.** -/
theorem detailed_eq_none_iff : s.detailed h v lib = none ↔ v.Endless h := by
  constructor
  · intro hnone
    obtain ⟨c, vs, rfl, -, -⟩ := detailedTo_eq_none_iff.mp hnone
    by_contra hc
    exact detailedTo_of_not_endless hc Heap.ncard_chained_le hnone
  · exact detailedTo_of_endless

theorem detailedList_isSome_iff :
    (s.detailedList h vs).isSome = true ↔ ∀ v ∈ vs, ¬v.Endless h := by
  rw [detailedList, Option.isSome_map, mapM_isSome_iff]
  refine forall₂_congr fun v _ => ?_
  rw [← detailed_eq_none_iff, Option.isSome_iff_ne_none, ne_eq]

end Schema

end RecordForge
