import Mathlib.Data.List.Induction
import Mathlib.Data.List.Lex
import RecordForge.ValueMember

/-!
# The ranking of value members

The member of a wrapper that holds a value is found by a few searches that stop at the first hit. What they
find can be told without them: the candidates are ranked, and the least one is taken.

The rank of a candidate is a list of numbers, which are compared from the first on: whether it is a field or
a property, how well it fits the desired type, how far above the wrapper its class is, and its place among
the members of this class. A list of entries in the order of such ranks (`Lists`) is searched from the
front, so the first hit is the least one (`Least`).
-/

namespace RecordForge

section
variable {α β : Type} {P Q : List ℕ → α → Prop} {l : List α}

/-! ## Lists in the order of ranks -/

/-- A list has exactly the entries that have a rank, by their ranks. -/
def Lists (P : List ℕ → α → Prop) (l : List α) : Prop :=
  ∃ entries : List (List ℕ × α), entries.map Prod.snd = l ∧
    entries.Pairwise (fun x y => x.1 < y.1) ∧ ∀ k a, (k, a) ∈ entries ↔ P k a

/-- The least of what has a rank. -/
def Least (P : List ℕ → α → Prop) : Option α → Prop
  | some a => ∃ k, P k a ∧ ∀ k' a', P k' a' → k ≤ k'
  | none => ∀ k a, ¬P k a

theorem Least.congr {x : Option α} (h : Least P x) (hPQ : ∀ k a, P k a ↔ Q k a) : Least Q x := by
  obtain rfl : P = Q := funext fun k => funext fun a => propext (hPQ k a)
  exact h

namespace Lists

theorem congr (h : Lists P l) (hPQ : ∀ k a, P k a ↔ Q k a) : Lists Q l := by
  obtain rfl : P = Q := funext fun k => funext fun a => propext (hPQ k a)
  exact h

/-- What is listed has a rank. -/
theorem mem_iff (h : Lists P l) {a : α} : a ∈ l ↔ ∃ k, P k a := by
  obtain ⟨entries, rfl, -, hmem⟩ := h
  simp [hmem]

/-- The entries of a list are in the order of their numbers. -/
theorem of_getElem? (l : List α) : Lists (fun k a => ∃ i, k = [i] ∧ l[i]? = some a) l := by
  refine ⟨l.zipIdx.map fun x => ([x.2], x.1), ?_, ?_, fun k a => ?_⟩
  · rw [List.map_map]
    exact List.zipIdx_map_fst 0 l
  · rw [List.pairwise_map]
    have hsorted : (l.zipIdx.map Prod.snd).Pairwise (· < ·) := by
      rw [List.zipIdx_map_snd]
      exact List.pairwise_lt_range'
    refine (List.pairwise_map.mp hsorted).imp fun {x y} hlt => ?_
    exact List.cons_lt_cons_iff.mpr (.inl hlt)
  · rw [List.mem_map]
    constructor
    · rintro ⟨⟨a', i⟩, hmem, he⟩
      obtain ⟨rfl, rfl⟩ := Prod.mk.inj he
      exact ⟨i, rfl, List.mem_zipIdx_iff_getElem?.mp hmem⟩
    · rintro ⟨i, rfl, ha⟩
      exact ⟨(a, i), List.mem_zipIdx_iff_getElem?.mpr ha, rfl⟩

theorem map (h : Lists P l) (f : α → β) : Lists (fun k b => ∃ a, P k a ∧ f a = b) (l.map f) := by
  obtain ⟨entries, rfl, hsorted, hmem⟩ := h
  refine ⟨entries.map fun x => (x.1, f x.2), ?_, ?_, fun k b => ?_⟩
  · rw [List.map_map, List.map_map]
    rfl
  · exact List.pairwise_map.mpr hsorted
  · rw [List.mem_map]
    constructor
    · rintro ⟨⟨k', a⟩, ha, he⟩
      obtain ⟨rfl, rfl⟩ := Prod.mk.inj he
      exact ⟨a, (hmem _ _).mp ha, rfl⟩
    · rintro ⟨a, ha, rfl⟩
      exact ⟨(k, a), (hmem _ _).mpr ha, rfl⟩

theorem filter (h : Lists P l) (p : α → Bool) : Lists (fun k a => P k a ∧ p a = true) (l.filter p) := by
  obtain ⟨entries, rfl, hsorted, hmem⟩ := h
  refine ⟨entries.filter (p ∘ Prod.snd), List.filter_map.symm, hsorted.filter _, fun k a => ?_⟩
  rw [List.mem_filter, hmem]
  rfl

/-- In lists that replace the entries of a list, the rank of an entry begins with that of what it
replaces. -/
theorem flatMap {Q : ℕ → α → Prop} {R : α → List ℕ → β → Prop} {f : α → List β}
    (h : Lists (fun k a => ∃ i, k = [i] ∧ Q i a) l) (hf : ∀ i a, Q i a → Lists (R a) (f a)) :
    Lists (fun k b => ∃ i k' a, k = i :: k' ∧ Q i a ∧ R a k' b) (l.flatMap f) := by
  obtain ⟨entries, rfl, hsorted, hmem⟩ := h
  -- for each part of the entries, from the front on
  suffices ∃ out : List (List ℕ × β), out.map Prod.snd = (entries.map Prod.snd).flatMap f ∧
      out.Pairwise (fun x y => x.1 < y.1) ∧
        ∀ k b, (k, b) ∈ out ↔ ∃ i k' a, k = i :: k' ∧ ([i], a) ∈ entries ∧ R a k' b by
    obtain ⟨out, hout, hpair, hspec⟩ := this
    refine ⟨out, hout, hpair, fun k b => (hspec k b).trans ?_⟩
    simp [hmem]
  have hkeys : ∀ x ∈ entries, ∃ i, x.1 = [i] ∧ Q i x.2 := fun x hx => (hmem x.1 x.2).mp hx
  clear hmem
  induction entries with
  | nil => exact ⟨[], rfl, .nil, by simp⟩
  | cons x entries ih =>
    obtain ⟨hfirst, hsorted⟩ := List.pairwise_cons.mp hsorted
    obtain ⟨out, hout, hpair, hspec⟩ := ih hsorted fun y hy => hkeys y (List.mem_cons_of_mem _ hy)
    obtain ⟨⟨k, a⟩, hka⟩ : ∃ y, y = x := ⟨x, rfl⟩
    obtain rfl := hka
    obtain ⟨i, rfl, hQ⟩ : ∃ i, k = [i] ∧ Q i a := hkeys _ List.mem_cons_self
    obtain ⟨own, hown, howned, hownspec⟩ := hf i a hQ
    refine ⟨own.map (fun y => (i :: y.1, y.2)) ++ out, ?_, ?_, fun k b => ?_⟩
    · rw [List.map_append, hout, List.map_map, List.map_cons, List.flatMap_cons]
      exact congrArg (· ++ _) hown
    · refine List.pairwise_append.mpr ⟨List.pairwise_map.mpr (howned.imp fun hlt => ?_), hpair, ?_⟩
      · exact List.cons_lt_cons_iff.mpr (.inr ⟨rfl, hlt⟩)
      · rintro y hy ⟨k, b⟩ hz
        obtain ⟨y, -, rfl⟩ := List.mem_map.mp hy
        obtain ⟨j, k', a', rfl, ha', -⟩ := (hspec k b).mp hz
        have hlt : i < j := by simpa [List.cons_lt_cons_iff] using hfirst _ ha'
        exact List.cons_lt_cons_iff.mpr (.inl hlt)
    · rw [List.mem_append, List.mem_map, hspec]
      constructor
      · rintro (⟨⟨k', b'⟩, hb, he⟩ | ⟨j, k', a', rfl, ha', hR⟩)
        · obtain ⟨rfl, rfl⟩ := Prod.mk.inj he
          exact ⟨i, k', a, rfl, List.mem_cons_self, (hownspec _ _).mp hb⟩
        · exact ⟨j, k', a', rfl, List.mem_cons_of_mem _ ha', hR⟩
      · rintro ⟨j, k', a', rfl, ha', hR⟩
        rcases List.mem_cons.mp ha' with he | ha'
        · obtain ⟨hij, rfl⟩ := Prod.mk.inj he
          obtain rfl := List.singleton_inj.mp hij
          exact .inl ⟨(k', b), (hownspec _ _).mpr hR, rfl⟩
        · exact .inr ⟨j, k', a', rfl, ha', hR⟩

/-- **The first hit** of a search is the least one. -/
theorem find? (h : Lists P l) (p : α → Bool) : Least (fun k a => P k a ∧ p a = true) (l.find? p) := by
  obtain ⟨entries, rfl, hsorted, hmem⟩ := h
  rw [List.find?_map]
  cases hfind : entries.find? (p ∘ Prod.snd) with
  | none =>
    rintro k a ⟨ha, hp⟩
    exact List.find?_eq_none.mp hfind _ ((hmem k a).mpr ha) hp
  | some e =>
    obtain ⟨hp, before, after, rfl, hbefore⟩ := List.find?_eq_some_iff_append.mp hfind
    refine ⟨e.1, ⟨(hmem _ _).mp (List.mem_append_right _ List.mem_cons_self), hp⟩, ?_⟩
    rintro k a ⟨ha, hpa⟩
    rcases List.mem_append.mp ((hmem k a).mpr ha) with hin | hin
    · have hno := hbefore _ hin
      simp [hpa] at hno
    · rcases List.mem_cons.mp hin with rfl | hin
      · exact le_refl _
      · exact le_of_lt ((List.pairwise_cons.mp (List.pairwise_append.mp hsorted).2.1).1 _ hin)

end Lists

/-- Of two searches, the second one only counts if the first one finds nothing. -/
theorem Least.or {n : ℕ} {P : ℕ → List ℕ → α → Prop} {x y : Option α} (hx : Least (P n) x)
    (hy : Least (fun k a => ∃ i k', k = i :: k' ∧ n < i ∧ P i k' a) y) :
    Least (fun k a => ∃ i k', k = i :: k' ∧ n ≤ i ∧ P i k' a) (x.or y) := by
  cases x with
  | some a =>
    obtain ⟨k, hk, hleast⟩ := hx
    refine ⟨n :: k, ⟨n, k, rfl, le_refl _, hk⟩, ?_⟩
    rintro _ a' ⟨i, k', rfl, hi, ha'⟩
    rcases Nat.lt_or_eq_of_le hi with hlt | rfl
    · exact le_of_lt (List.cons_lt_cons_iff.mpr (.inl hlt))
    · rcases (hleast k' a' ha').eq_or_lt with rfl | hlt
      · exact le_refl _
      · exact le_of_lt (List.cons_lt_cons_iff.mpr (.inr ⟨rfl, hlt⟩))
  | none =>
    refine Least.congr (x := y) hy fun k a => ?_
    constructor
    · rintro ⟨i, k', rfl, hi, ha⟩
      exact ⟨i, k', rfl, hi.le, ha⟩
    · rintro ⟨i, k', rfl, hi, ha⟩
      refine ⟨i, k', rfl, lt_of_le_of_ne hi ?_, ha⟩
      rintro rfl
      exact hx k' a ha

end

/-! ## Candidates -/

namespace Schema

variable {s : Schema} {wrapper desired : Ty} {m m' : ValueMember} {n i j : ℕ}

/-- A member of a wrapper that may hold its value: `i` is the place of the class that declares it among the
wrapper and its bases, and `j` its place among the fields, or properties, that this class declares. Of the
public properties of one name only the first counts. -/
inductive Candidate (s : Schema) (wrapper : Ty) : (group i j : ℕ) → ValueMember → Prop
  | field {a : Ty} {d : ClassDecl} {f : FieldDecl} {i j : ℕ}
      (hclass : (s.lineage wrapper)[i]? = some (a, d)) (hf : d.layout[d.ownStart + j]? = some f)
      (hpublic : f.isPublic = true) :
      Candidate s wrapper 0 i j ⟨f.name, f.type, .field (d.ownStart + j)⟩
  | property {a : Ty} {d : ClassDecl} {p : PropertyDecl} {i j : ℕ}
      (hclass : (s.lineage wrapper)[i]? = some (a, d)) (hp : d.properties[j]? = some p)
      (hpublic : p.isPublic = true)
      (hfirst : ∀ i' j' a' d' p', (s.lineage wrapper)[i']? = some (a', d') →
        d'.properties[j']? = some p' → p'.isPublic = true → [i', j'] < [i, j] → p'.name ≠ p.name) :
      Candidate s wrapper 1 i j ⟨p.name, p.type, .property p.hasGetter p.hasSetter⟩

/-- A place holds one candidate at most. -/
theorem Candidate.unique (h : s.Candidate wrapper n i j m) (h' : s.Candidate wrapper n i j m') :
    m = m' := by
  cases h with
  | field hclass hf =>
    cases h' with
    | field hclass' hf' =>
      obtain ⟨-, rfl⟩ := Prod.mk.inj (Option.some.inj (hclass.symm.trans hclass'))
      obtain rfl := Option.some.inj (hf.symm.trans hf')
      rfl
  | property hclass hp =>
    cases h' with
    | property hclass' hp' =>
      obtain ⟨-, rfl⟩ := Prod.mk.inj (Option.some.inj (hclass.symm.trans hclass'))
      obtain rfl := Option.some.inj (hp.symm.trans hp')
      rfl

/-- The type of a member matches a desired one: they are the same, or one is an enumeration over the
other. -/
def Matches (s : Schema) (desired member : Ty) : Prop :=
  member = desired ∨ (∃ k, s.underlying? desired = some k ∧ member = .scalar k) ∨
    ∃ k, s.underlying? member = some k ∧ desired = .scalar k

/-- How well a member fits a desired type. -/
inductive Fits (s : Schema) (desired : Ty) : ℕ → ValueMember → Prop
  | value {m : ValueMember} (hname : m.name = valueName) (h : s.Matches desired m.type) :
      Fits s desired 1 m
  | matching {m : ValueMember} (h : s.Matches desired m.type) : Fits s desired 2 m
  | base {m : ValueMember} (hname : m.name = valueName) (hany : m.type ≠ .any)
      (h : m.type ∈ s.bases desired) : Fits s desired 3 m

/-- The rank of a member for a desired type. -/
def Ranked (s : Schema) (wrapper desired : Ty) (rank : List ℕ) (m : ValueMember) : Prop :=
  ∃ group fit i j, rank = [group, fit, i, j] ∧ s.Candidate wrapper group i j m ∧ s.Fits desired fit m

theorem Ranked.unique {rank : List ℕ} (h : s.Ranked wrapper desired rank m)
    (h' : s.Ranked wrapper desired rank m') : m = m' := by
  obtain ⟨group, fit, i, j, rfl, hm, -⟩ := h
  obtain ⟨group', fit', i', j', he, hm', -⟩ := h'
  simp only [List.cons.injEq, and_true] at he
  obtain ⟨rfl, -, rfl, rfl⟩ := he
  exact hm.unique hm'

/-! ## The searches -/

theorem isMatch_iff {member : Ty} : s.isMatch desired member = true ↔ s.Matches desired member := by
  rw [isMatch, Bool.or_eq_true, beq_iff_eq, Matches]
  refine or_congr Iff.rfl ?_
  cases hd : s.underlying? desired with
  | some k =>
    -- an enumeration is no scalar type, so the match can only be this way around
    have hno : ∀ k', desired ≠ .scalar k' := by
      rintro k' rfl
      simp [underlying?, enum?] at hd
    cases member <;> simp [hno, kind?, @eq_comm Kind k]
  | none =>
    cases hm : s.underlying? member with
    | none => simp
    | some k => cases desired <;> simp [kind?]

theorem isBaseMatch_iff {member : Ty} :
    s.isBaseMatch desired member = true ↔ member ≠ .any ∧ member ∈ s.bases desired := by
  rw [isBaseMatch, Bool.and_eq_true, bne_iff_ne]
  refine and_congr_right fun hany => ?_
  rw [isSubclass, if_neg hany, List.contains_iff_mem]

/-- **The choice among candidates** that are listed in order is the least one that fits. -/
theorem least_pick (s : Schema) (desired : Ty) {P : List ℕ → ValueMember → Prop}
    {l : List ValueMember} (h : Lists P l) :
    Least (fun k m => ∃ fit k', k = fit :: k' ∧ P k' m ∧ s.Fits desired fit m)
      (s.pick desired l) := by
  -- one search for each way to fit
  have hvalue : Least (fun k m => P k m ∧ s.Fits desired 1 m)
      (l.find? fun m => m.name == valueName && s.isMatch desired m.type) := by
    refine (h.find? _).congr fun k m => and_congr_right fun _ => ?_
    rw [Bool.and_eq_true, beq_iff_eq, isMatch_iff]
    exact ⟨fun hm => .value hm.1 hm.2, fun hm => by cases hm with | value hname hm => exact ⟨hname, hm⟩⟩
  have hmatching : Least (fun k m => P k m ∧ s.Fits desired 2 m)
      (l.find? fun m => s.isMatch desired m.type) := by
    refine (h.find? _).congr fun k m => and_congr_right fun _ => ?_
    rw [isMatch_iff]
    exact ⟨.matching, fun hm => by cases hm with | matching hm => exact hm⟩
  have hbase : Least (fun k m => P k m ∧ s.Fits desired 3 m)
      (l.find? fun m => m.name == valueName && s.isBaseMatch desired m.type) := by
    refine (h.find? _).congr fun k m => and_congr_right fun _ => ?_
    rw [Bool.and_eq_true, beq_iff_eq, isBaseMatch_iff]
    exact ⟨fun hm => .base hm.1 hm.2.1 hm.2.2,
      fun hm => by cases hm with | base hname hany hm => exact ⟨hname, hany, hm⟩⟩
  have hlast : Least (fun k m => ∃ fit k', k = fit :: k' ∧ 3 < fit ∧ P k' m ∧ s.Fits desired fit m)
      none := by
    rintro _ m ⟨fit, k', rfl, hfit, -, hm⟩
    cases hm <;> omega
  have hpick := Least.or (P := fun fit k m => P k m ∧ s.Fits desired fit m) hvalue
    (Least.or hmatching ((Option.or_none ▸ Least.or hbase hlast)))
  refine hpick.congr fun k m => ?_
  constructor
  · rintro ⟨fit, k', rfl, -, hm⟩
    exact ⟨fit, k', rfl, hm⟩
  · rintro ⟨fit, k', rfl, hP, hm⟩
    refine ⟨fit, k', rfl, ?_, hP, hm⟩
    cases hm <;> omega

/-! ## The candidates, listed -/

/-- The public fields of a class are listed by their places among its own fields. -/
theorem lists_ownPublicFields (d : ClassDecl) :
    Lists (fun k (x : ℕ × FieldDecl) => ∃ j, k = [j] ∧ d.layout[d.ownStart + j]? = some x.2 ∧
      x.1 = d.ownStart + j ∧ x.2.isPublic = true) d.ownPublicFields := by
  refine (((Lists.of_getElem? _).filter _).map _).congr fun k ⟨slot, f⟩ => ?_
  constructor
  · rintro ⟨⟨f', slot'⟩, ⟨⟨j, rfl, hj⟩, hpublic⟩, he⟩
    obtain ⟨rfl, rfl⟩ := Prod.mk.inj he
    rw [List.getElem?_drop, List.getElem?_zipIdx] at hj
    obtain ⟨f, hf, he⟩ := Option.map_eq_some_iff.mp hj
    obtain ⟨rfl, hslot⟩ := Prod.mk.inj he
    exact ⟨j, rfl, hf, (Nat.zero_add _ ▸ hslot).symm, hpublic⟩
  · rintro ⟨j, rfl, hf, rfl, hpublic⟩
    have hj : (d.layout.zipIdx.drop d.ownStart)[j]? = some (f, d.ownStart + j) := by
      rw [List.getElem?_drop, List.getElem?_zipIdx, hf, Nat.zero_add]
      rfl
    exact ⟨(f, d.ownStart + j), ⟨⟨j, rfl, hj⟩, hpublic⟩, rfl⟩

theorem lists_fieldCandidates (s : Schema) (wrapper : Ty) :
    Lists (fun k m => ∃ i j, k = [i, j] ∧ s.Candidate wrapper 0 i j m) (s.fieldCandidates wrapper) := by
  have hfields := Lists.flatMap (Lists.of_getElem? (s.lineage wrapper))
    (f := fun x => x.2.ownPublicFields) fun _ x _ => lists_ownPublicFields x.2
  refine (hfields.map _).congr fun k m => ?_
  constructor
  · rintro ⟨⟨slot, f⟩, ⟨i, _, ⟨a, d⟩, rfl, hclass, j, rfl, hf, rfl, hpublic⟩, rfl⟩
    exact ⟨i, j, rfl, .field hclass hf hpublic⟩
  · rintro ⟨i, j, rfl, hm⟩
    cases hm with
    | @field a d f _ _ hclass hf hpublic =>
      exact ⟨(d.ownStart + j, f), ⟨i, _, _, rfl, hclass, j, rfl, hf, rfl, hpublic⟩, rfl⟩

/-- Entries in order, of which the first of each name are kept. -/
theorem exists_kept (entries : List (List ℕ × Ty × PropertyDecl))
    (hsorted : entries.Pairwise fun x y => x.1 < y.1) :
    ∃ kept : List (List ℕ × Ty × PropertyDecl), kept.Sublist entries ∧
      kept.map Prod.snd = (entries.map Prod.snd).foldl addProperty [] ∧
      (∀ y ∈ entries, ∃ z ∈ kept, z.2.2.name = y.2.2.name) ∧
      ∀ x, x ∈ kept ↔ x ∈ entries ∧ ∀ y ∈ entries, y.1 < x.1 → y.2.2.name ≠ x.2.2.name := by
  -- the last entry is kept unless one of its name is there
  induction entries using List.reverseRecOn with
  | nil => exact ⟨[], .slnil, rfl, by simp, by simp⟩
  | append_singleton entries e ih =>
    obtain ⟨hsorted, -, hlast⟩ := List.pairwise_append.mp hsorted
    have hlast : ∀ y ∈ entries, y.1 < e.1 := fun y hy => hlast y hy e (List.mem_singleton.mpr rfl)
    obtain ⟨kept, hsub, hfold, hcovers, hspec⟩ := ih hsorted
    rw [List.map_append, List.foldl_append, ← hfold]
    by_cases hfound : ∃ z ∈ kept, z.2.2.name = e.2.2.name
    · obtain ⟨z, hz, hname⟩ := hfound
      have hadd : addProperty (kept.map Prod.snd) e.2 = kept.map Prod.snd := by
        rw [addProperty, if_pos]
        exact List.any_eq_true.mpr ⟨z.2, List.mem_map_of_mem hz, beq_iff_eq.mpr hname⟩
      refine ⟨kept, hsub.trans (List.sublist_append_left ..), hadd.symm, ?_, fun x => ?_⟩
      · exact List.forall_mem_append.mpr ⟨hcovers, List.forall_mem_singleton.mpr ⟨z, hz, hname⟩⟩
      · rw [hspec, List.mem_append, List.mem_singleton, List.forall_mem_append,
          List.forall_mem_singleton]
        constructor
        · rintro ⟨hx, hfirst⟩
          exact ⟨.inl hx, hfirst, fun hlt => absurd hlt (not_lt_of_gt (hlast x hx))⟩
        · rintro ⟨hx | rfl, hfirst, -⟩
          · exact ⟨hx, hfirst⟩
          · exact absurd hname (hfirst z (hsub.mem hz) (hlast z (hsub.mem hz)))
    · have hadd : addProperty (kept.map Prod.snd) e.2 = (kept ++ [e]).map Prod.snd := by
        rw [addProperty, if_neg, List.map_append]
        · rfl
        · intro hany
          obtain ⟨y, hy, hname⟩ := List.any_eq_true.mp hany
          obtain ⟨z, hz, rfl⟩ := List.mem_map.mp hy
          exact hfound ⟨z, hz, eq_of_beq hname⟩
      refine ⟨kept ++ [e], hsub.append_right _, hadd.symm, ?_, fun x => ?_⟩
      · refine List.forall_mem_append.mpr ⟨fun y hy => ?_, List.forall_mem_singleton.mpr ?_⟩
        · obtain ⟨z, hz, hname⟩ := hcovers y hy
          exact ⟨z, List.mem_append_left _ hz, hname⟩
        · exact ⟨e, List.mem_append_right _ (List.mem_singleton.mpr rfl), rfl⟩
      · rw [List.mem_append, List.mem_singleton, hspec, List.mem_append, List.mem_singleton,
          List.forall_mem_append, List.forall_mem_singleton]
        constructor
        · rintro (⟨hx, hfirst⟩ | rfl)
          · exact ⟨.inl hx, hfirst, fun hlt => absurd hlt (not_lt_of_gt (hlast x hx))⟩
          · refine ⟨.inr rfl, fun y hy _ hname => ?_, fun hlt => absurd hlt (lt_irrefl _)⟩
            obtain ⟨z, hz, hname'⟩ := hcovers y hy
            exact hfound ⟨z, hz, hname'.trans hname⟩
        · rintro ⟨hx | rfl, hfirst, -⟩
          · exact .inl ⟨hx, hfirst⟩
          · exact .inr rfl

/-- Of the declarations of one name only the first is kept. -/
theorem lists_foldl_addProperty {P : List ℕ → Ty × PropertyDecl → Prop} {l : List (Ty × PropertyDecl)}
    (h : Lists P l) : Lists (fun k x => P k x ∧ ∀ k' y, P k' y → k' < k → y.2.name ≠ x.2.name)
      (l.foldl addProperty []) := by
  obtain ⟨entries, rfl, hsorted, hmem⟩ := h
  obtain ⟨kept, hsub, hfold, -, hspec⟩ := exists_kept entries hsorted
  refine ⟨kept, hfold, hsorted.sublist hsub, fun k x => (hspec (k, x)).trans ?_⟩
  refine and_congr (hmem k x) ⟨fun hfirst k' y hy => ?_, fun hfirst y hy => ?_⟩
  · exact hfirst (k', y) ((hmem _ _).mpr hy)
  · exact hfirst _ _ ((hmem _ _).mp hy)

theorem lists_propertyCandidates (s : Schema) (wrapper : Ty) :
    Lists (fun k m => ∃ i j, k = [i, j] ∧ s.Candidate wrapper 1 i j m)
      (s.propertyCandidates wrapper) := by
  have hproperties := Lists.flatMap (Lists.of_getElem? (s.lineage wrapper))
    (f := fun x => (x.2.properties.filter PropertyDecl.isPublic).map fun p => (x.1, p)) fun _ x _ =>
      ((Lists.of_getElem? x.2.properties).filter _).map fun p => (x.1, p)
  refine ((lists_foldl_addProperty hproperties).map _).congr fun k m => ?_
  constructor
  · rintro ⟨_, ⟨⟨i, _, ⟨a, d⟩, rfl, hclass, p, ⟨⟨j, rfl, hp⟩, hpublic⟩, rfl⟩, hfirst⟩, rfl⟩
    refine ⟨i, j, rfl, .property hclass hp hpublic fun i' j' a' d' p' hclass' hp' hpublic' hlt => ?_⟩
    exact hfirst _ (a', p') ⟨i', _, _, rfl, hclass', p', ⟨⟨j', rfl, hp'⟩, hpublic'⟩, rfl⟩ hlt
  · rintro ⟨i, j, rfl, hm⟩
    cases hm with
    | property hclass hp hpublic hfirst =>
      refine ⟨_, ⟨⟨i, _, _, rfl, hclass, _, ⟨⟨j, rfl, hp⟩, hpublic⟩, rfl⟩, ?_⟩, rfl⟩
      rintro _ _ ⟨i', _, _, rfl, hclass', p', ⟨⟨j', rfl, hp'⟩, hpublic'⟩, rfl⟩ hlt
      exact hfirst _ _ _ _ _ hclass' hp' hpublic' hlt

/-! ## The choice -/

/-- What is not a class has no candidates. -/
theorem lineage_of_not_isClass (h : s.isClass wrapper = false) : s.lineage wrapper = [] := by
  have hno : s.decl? wrapper = none := by simpa [isClass] using h
  simp [lineage, ancestors, bases, hno]

/-- **The value member** is the least of the members that are ranked. -/
theorem least_valueMember? (s : Schema) (wrapper desired : Ty) :
    Least (s.Ranked wrapper desired) (s.valueMember? wrapper desired) := by
  rw [valueMember?]
  split
  · have hfields := least_pick s desired (lists_fieldCandidates s wrapper)
    have hproperties := least_pick s desired (lists_propertyCandidates s wrapper)
    have hlast : Least (fun k m => ∃ group k', k = group :: k' ∧ 1 < group ∧ ∃ fit k'', k' = fit :: k'' ∧
        (∃ i j, k'' = [i, j] ∧ s.Candidate wrapper group i j m) ∧ s.Fits desired fit m) none := by
      rintro _ m ⟨group, _, rfl, hgroup, fit, _, rfl, ⟨i, j, rfl, hm⟩, -⟩
      cases hm <;> omega
    have hboth := Least.or (P := fun group k m => ∃ fit k', k = fit :: k' ∧
      (∃ i j, k' = [i, j] ∧ s.Candidate wrapper group i j m) ∧ s.Fits desired fit m)
      hfields (Option.or_none ▸ Least.or hproperties hlast)
    refine hboth.congr fun k m => ?_
    constructor
    · rintro ⟨group, _, rfl, -, fit, _, rfl, ⟨i, j, rfl, hm⟩, hfit⟩
      exact ⟨group, fit, i, j, rfl, hm, hfit⟩
    · rintro ⟨group, fit, i, j, rfl, hm, hfit⟩
      exact ⟨group, _, rfl, Nat.zero_le _, fit, _, rfl, ⟨i, j, rfl, hm⟩, hfit⟩
  · next hno =>
    rintro _ m ⟨group, fit, i, j, rfl, hm, -⟩
    have hlineage := lineage_of_not_isClass (eq_false_of_ne_true hno)
    cases hm with
    | field hclass => simp [hlineage] at hclass
    | property hclass => simp [hlineage] at hclass

/-- A member is chosen exactly if no other one has a lower rank. -/
theorem valueMember?_eq_some_iff : s.valueMember? wrapper desired = some m ↔
    ∃ rank, s.Ranked wrapper desired rank m ∧
      ∀ rank' m', s.Ranked wrapper desired rank' m' → rank ≤ rank' := by
  have hleast := least_valueMember? s wrapper desired
  cases hm : s.valueMember? wrapper desired with
  | none =>
    rw [hm] at hleast
    exact ⟨fun h => (nomatch h), fun ⟨rank, h, _⟩ => absurd h (hleast rank m)⟩
  | some m' =>
    rw [hm] at hleast
    constructor
    · intro he
      exact Option.some.inj he ▸ hleast
    · rintro ⟨rank, hrank, hle⟩
      obtain ⟨rank', hrank', hle'⟩ := hleast
      obtain rfl := le_antisymm (hle _ _ hrank') (hle' _ _ hrank)
      exact congrArg some (hrank'.unique hrank)

/-- None is chosen exactly if none is ranked. -/
theorem valueMember?_eq_none_iff : s.valueMember? wrapper desired = none ↔
    ∀ rank m, ¬s.Ranked wrapper desired rank m := by
  have hleast := least_valueMember? s wrapper desired
  cases hm : s.valueMember? wrapper desired with
  | none =>
    rw [hm] at hleast
    exact iff_of_true rfl hleast
  | some m =>
    rw [hm] at hleast
    obtain ⟨rank, hrank, -⟩ := hleast
    exact iff_of_false (fun h => nomatch h) fun hno => hno rank m hrank

end Schema

end RecordForge
