import Mathlib.Data.Set.Card
import RecordForge.Proofs.Synthesis.Search

/-!
# How far a search reaches

A search nests: to implement a class it asks for the classes that the fields need. It goes through types
that properties *mention*, as their own types or as replacements. What is in flight are different abstract
types that can be reached in this way, so there are no more levels of nesting than such types. A search that
does anything whatever beyond these levels gives the same (`Registry.searchWith_eq`): none goes further, and
the bound on the levels of `Registry.find` is never met.
-/

namespace RecordForge

open Relation

/-! ## Types that can be reached -/

/-- An abstract type mentions the types of its abstract properties and those that may replace them. -/
def Provider.Mentions (p : Provider) (s : Schema) (t u : Ty) : Prop :=
  s.isAbstract t = true ∧ ∃ q ∈ s.abstractProperties t, u = q.type ∨ u ∈ p.overrides t q

/-- The abstract types that can be reached from a type. -/
def Provider.abstracts (p : Provider) (s : Schema) (t : Ty) : Set Ty :=
  {u | s.isAbstract u = true ∧ ReflTransGen (p.Mentions s) t u}

/-- What is in flight when `t` is asked for, in a search for `root` with some levels left: different
abstract types that can be reached. With them the levels exceed the number of such types. -/
structure Provider.InReach (p : Provider) (s : Schema) (root : Ty) (levels : Nat) (inFlight : List Ty)
    (t : Ty) : Prop where
  nodup : inFlight.Nodup
  reached : ∀ u ∈ inFlight, u ∈ p.abstracts s root
  reaches : ReflTransGen (p.Mentions s) root t
  levels : (p.abstracts s root).ncard < levels + inFlight.length

namespace Provider

variable {p : Provider} {s : Schema} {root t F : Ty} {n : Nat} {inFlight : List Ty}

/-- Abstract types are classes. -/
theorem abstracts_subset :
    p.abstracts s t ⊆ ((Finset.range s.classes.size).image Ty.cls : Finset Ty) := by
  rintro u ⟨ha, -⟩
  obtain ⟨d, hd, -⟩ := Schema.exists_of_isAbstract ha
  obtain ⟨c, rfl, hlt⟩ := Schema.lt_size_of_decl? hd
  simpa using hlt

theorem finite_abstracts : (p.abstracts s t).Finite :=
  (Finset.finite_toSet _).subset abstracts_subset

/-- There are no more of them than classes. -/
theorem ncard_abstracts_le : (p.abstracts s t).ncard ≤ s.classes.size := by
  refine (Set.ncard_le_ncard abstracts_subset (Finset.finite_toSet _)).trans ?_
  rw [Set.ncard_coe_finset]
  exact Finset.card_image_le.trans_eq (Finset.card_range _)

/-- A type mentions what it needs. -/
theorem Needs.mentions (hn : p.Needs s t F) : p.Mentions s t F := by
  obtain ⟨ha, q, hq, m, hc, -, -⟩ := hn
  refine ⟨ha, q, hq, ?_⟩
  cases hc with
  | declared => exact .inl rfl
  | replaced h => exact .inr (by simp [h])

namespace InReach

/-- At the beginning nothing is in flight. -/
theorem nil (hn : (p.abstracts s t).ncard < n) : p.InReach s t n [] t :=
  ⟨.nil, by simp, .refl, by simpa using hn⟩

/-- There are levels left. -/
theorem levels_pos (h : p.InReach s root n inFlight t) : 0 < n := by
  -- what is in flight is different, so there is no more of it than can be reached
  have hcard : inFlight.length ≤ (p.abstracts s root).ncard := by
    rw [← List.toFinset_card_of_nodup h.nodup, ← Set.ncard_coe_finset]
    refine Set.ncard_le_ncard (fun u hu => ?_) finite_abstracts
    exact h.reached u (List.mem_toFinset.mp hu)
  have hlevels := h.levels
  omega

/-- What a type that is not in flight needs is asked for with the type in flight. -/
theorem push (h : p.InReach s root (n + 1) inFlight t) (ht : t ∉ inFlight) (hn : p.Needs s t F) :
    p.InReach s root n (t :: inFlight) F where
  nodup := List.nodup_cons.mpr ⟨ht, h.nodup⟩
  reached u hu := by
    rcases List.mem_cons.mp hu with rfl | hu
    · exact ⟨hn.1, h.reaches⟩
    · exact h.reached u hu
  reaches := h.reaches.tail hn.mentions
  levels := by
    have hlevels := h.levels
    rw [List.length_cons]
    omega

end InReach

end Provider

/-! ## Searches that go on in any way -/

/-- One level of a search, where `nested` answers for what is needed. -/
def Registry.level (r : Registry) (w : Workshop) (nested : List Ty → Request) (inFlight : List Ty) :
    Request := fun t s =>
  match (r.cached? t).or (s.staged.lookup t) with
  | some found => .ok (found, s)
  | none =>
    match s.schema.decl? t with
    | none => .error (.notAClass (s.schema.name t))
    | some d =>
      if !w.provider.isMapped t d then .error (.notMapped d.name)
      else if !d.isAbstract then .ok (s.stage t (Descriptor.concrete s.schema t w.listener))
      else if inFlight.contains t then .error (.cyclicSynthesis d.name)
      else do
        let (i, s) ← Implementation.make w (nested (t :: inFlight)) t d s
        i.finish w s

/-- A search for which `beyond` answers when it nests deeper than a number of levels. -/
def Registry.searchWith (r : Registry) (w : Workshop) (beyond : List Ty → Request) :
    (levels : Nat) → (inFlight : List Ty) → Request
  | 0 => beyond
  | levels + 1 => r.level w (searchWith r w beyond levels)

theorem Registry.find_succ (r : Registry) (w : Workshop) (n : Nat) :
    r.find w (n + 1) = r.level w (r.find w n) := rfl

section
variable {w : Workshop} {H : Heap → Prop} {S : Schema} {cache : List (Ty × DescriptorId)}
variable {inFlight : List Ty} {s : Session} {t root : Ty} {request request' : Request}
variable {nested : Ty → Except RequestError Unit} {known : Ty → Bool}

/-- The plan of a field depends on what the request for its type gives. -/
theorem FieldPlan.make_congr {f : PropertyField}
    (hreq : w.provider.owns s.schema f.fieldType = true → s.schema.isAbstract f.fieldType = true →
      request' f.fieldType s = request f.fieldType s) : make w request' f s = make w request f s := by
  rw [make, make]
  cases hd : s.schema.decl? f.fieldType with
  | none => rfl
  | some d =>
    dsimp only
    split
    · rfl
    · next howned =>
      split
      · next habs =>
        have howns : w.provider.owns s.schema f.fieldType = true := by
          simpa [Provider.owns, hd] using howned
        have habstract : s.schema.isAbstract f.fieldType = true := by simp [Schema.isAbstract, hd, habs]
        rw [ofAbstract, ofAbstract, hreq howns habstract]
      · rfl

section
variable (hS : S.Closed) (hp : w.provider.Within S) (hh : ∀ {h}, H h → h.Within S)
variable (hreq : ∀ F, w.provider.Needs S t F → S.Declares F → ∀ s : Session,
  s.Tracks w H S cache → s.Recalls w S cache known → request' F s = request F s)
include hS hp hh hreq

omit hh in
/-- So does a property of an implementation. -/
theorem ForgedProperty.make_congr (hs : s.Tracks w H S cache)
    (hk : s.Recalls w S cache known) (hd : S.Declares t)
    (ht : S.isAbstract t = true) {q : PropertyDecl} (hq : q ∈ S.abstractProperties t) {slot : Nat} :
    make w request' t q slot s = make w request t q slot s := by
  rw [make, make, PropertyField.choose_eq hs.schema hS hp ht hd hq slot]
  cases hf : PropertyField.choose w S t q slot with
  | error e => rfl
  | ok f =>
    obtain ⟨F, m, hc, rfl⟩ := PropertyField.choose_eq_ok_iff.mp hf
    have hF : S.Declares F := hc.declares hS hp ht hq
    have hmake : FieldPlan.make w request' ⟨t, q, F, m, w.provider.parameters t q, slot⟩ s =
        FieldPlan.make w request ⟨t, q, F, m, w.provider.parameters t q, slot⟩ s := by
      refine FieldPlan.make_congr fun ho ha => ?_
      rw [Provider.owns_eq hs.schema hF] at ho
      rw [Schema.isAbstract_eq hs.schema hF] at ha
      exact hreq F ⟨ht, q, hq, m, hc, ho, ha⟩ hF s hs hk
    simp only [bind, Except.bind, hmake]

/-- So do properties, one after the other. -/
theorem ForgedProperty.makeAll_congr (hs : s.Tracks w H S cache)
    (hk : s.Recalls w S cache known) (hd : S.Declares t)
    (ht : S.isAbstract t = true)
    (hanswers : ∀ F, w.provider.Needs S t F → S.Declares F →
      request.Answers nested w H S cache known inFlight F)
    {qs : List PropertyDecl} (hqs : ∀ q ∈ qs, q ∈ S.abstractProperties t) {slot : Nat} :
    makeAll w request' t qs slot s = makeAll w request t qs slot s := by
  induction qs generalizing s slot with
  | nil => rfl
  | cons q qs ih =>
    have hq : q ∈ S.abstractProperties t := hqs q List.mem_cons_self
    have hfirst : Answers (w.propertyVerdict S nested t q slot) _ (make w request t q slot s) :=
      make_answers hS hp hh hs hk hd ht hq hanswers
    rw [makeAll, makeAll, make_congr hS hp hreq hs hk hd ht hq]
    cases hmake : make w request t q slot s with
    | error e => rfl
    | ok x =>
      rw [hmake] at hfirst
      cases hfirst with
      | answered _ hgrows =>
        have hrest : makeAll w request' t qs (slot + 1) x.2 = makeAll w request t qs (slot + 1) x.2 :=
          ih hgrows.1.tracks (hk.grows hgrows.1) fun q hq => hqs q (List.mem_cons_of_mem _ hq)
        simp only [bind, Except.bind, hrest]

/-- So does the implementation of a class. -/
theorem Implementation.make_congr (hs : s.Tracks w H S cache)
    (hk : s.Recalls w S cache known) {c : ClassDecl} (hc : S.decl? t = some c) (ha : c.isAbstract = true)
    (hanswers : ∀ F, w.provider.Needs S t F → S.Declares F →
      request.Answers nested w H S cache known inFlight F) :
    make w request' t c s = make w request t c s := by
  have hd : S.Declares t := Schema.declares_of_decl? hc
  have habstracts := Schema.abstractProperties_eq hs.schema hS hd
  rw [Schema.abstractProperties] at habstracts
  rw [make, make]
  dsimp only
  rw [habstracts, ForgedProperty.makeAll_congr hS hp hh hreq hs hk hd (by simp [Schema.isAbstract, hc, ha])
    hanswers fun _ hq => hq]

end

/-- **A search stays within reach.** What happens beyond as many levels as there are abstract types to be
reached makes no difference. -/
theorem Registry.searchWith_eq (hS : S.Closed) (hp : w.provider.Within S) (hH : H w.heap)
    (hh : ∀ {h}, H h → h.Within S) (r : Registry) (beyond : List Ty → Request) {m n : Nat}
    (hs : s.Tracks w H S r.cache) (hk : s.Recalls w S r.cache known) (hd : S.Declares t)
    (hc : w.provider.Chain S n inFlight t)
    (hr : w.provider.InReach S root m inFlight t) :
    r.searchWith w beyond m inFlight t s = r.find w n inFlight t s := by
  -- both have levels left: by what can be reached, and by the classes there are
  induction m generalizing n inFlight t s with
  | zero => exact absurd hr.levels_pos (Nat.lt_irrefl 0)
  | succ m ih =>
    obtain ⟨n, rfl⟩ := Nat.exists_eq_succ_of_ne_zero hc.levels_pos.ne'
    rw [searchWith, Nat.succ_eq_add_one, find_succ, level, level]
    split
    · rfl
    · rw [Schema.decl?_eq hs.schema hd]
      cases hdecl : S.decl? t with
      | none => rfl
      | some c =>
        dsimp only
        split
        · rfl
        · split
          · rfl
          · next habs =>
            split
            · rfl
            · next hfree =>
              have ha : c.isAbstract = true := by simpa using habs
              have hfree : t ∉ inFlight := by simpa using hfree
              -- what the class needs is asked for one level further down
              have hnested : ∀ F, w.provider.Needs S t F → S.Declares F → ∀ s : Session,
                  s.Tracks w H S r.cache → s.Recalls w S r.cache known →
                  r.searchWith w beyond m (t :: inFlight) F s = r.find w n (t :: inFlight) F s :=
                fun F hF hdF s₁ hs₁ hk₁ => ih hs₁ hk₁ hdF (hc.push hfree hF) (hr.push hfree hF)
              rw [Implementation.make_congr hS hp hh hnested hs hk hdecl ha
                fun F hF hdF s₁ hs₁ hk₁ => r.find_answers hS hp hh hH hs₁ hk₁ hdF (hc.push hfree hF)]

end

end RecordForge
