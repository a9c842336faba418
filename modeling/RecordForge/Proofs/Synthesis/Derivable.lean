import Mathlib.Logic.Relation
import Mathlib.Tactic.Choose
import RecordForge.Proofs.Synthesis.Field
import RecordForge.Registry

/-!
# Which classes have a descriptor

`Provider.Derivable` is the least set of classes that is closed under making implementations: a
class that is not abstract belongs to it, and an abstract class does if each of its abstract public
properties has a field that can be built, read and written.

`Workshop.verdict` is the search for a reason to refuse a class, without any memory of what it makes.
It may be told which classes are known before and which implementations have a report that ends. Along
the types in flight each *needs* the next, so the search meets a type in flight only where the need is
circular. Such a type is not derivable, and for all others the search has enough levels. So it refuses a
derivable class only for a report without an end, its own or that of a class that it needs:
`verdict_eq_ok_iff`, `verdict_of_derivable`.
-/

namespace RecordForge

/-! ## Derivable classes -/

section
variable (p : Provider) (h : Heap) (s : Schema)

/-- The classes that have a descriptor. For an abstract class, `F` and `m` are the field types and
the value members of its abstract public properties. -/
inductive Provider.Derivable : Ty → Prop
  | concrete {t : Ty} {c : ClassDecl} (hc : s.decl? t = some c) (hm : p.isMapped t c = true)
      (ha : c.isAbstract = false) : Derivable t
  | implemented {t : Ty} {c : ClassDecl} (hc : s.decl? t = some c) (hm : p.isMapped t c = true)
      (ha : c.isAbstract = true) (F : PropertyDecl → Ty) (m : PropertyDecl → Option ValueMember)
      (hF : ∀ q ∈ s.abstractProperties t, p.Chooses s t q (F q) (m q))
      (hu : ∀ q ∈ s.abstractProperties t, q.MayUse (m q))
      (hb : ∀ q ∈ s.abstractProperties t, p.owns s (F q) = true → s.isAbstract (F q) = false →
        p.CanBuild h s t q (F q))
      (hn : ∀ q ∈ s.abstractProperties t, p.owns s (F q) = true → s.isAbstract (F q) = true →
        Derivable (F q)) : Derivable t

/-- A class needs another one: it is abstract, and the field of one of its abstract properties is
owned and has the other as its abstract type. -/
def Provider.Needs (t F : Ty) : Prop :=
  s.isAbstract t = true ∧ ∃ q ∈ s.abstractProperties t, ∃ m, p.Chooses s t q F m ∧
    p.owns s F = true ∧ s.isAbstract F = true

end

theorem Provider.Needs.abstract {p : Provider} {s : Schema} {t F : Ty} (hn : p.Needs s t F) :
    s.isAbstract F = true := by
  obtain ⟨-, q, -, m, -, -, ha⟩ := hn
  exact ha

open Relation

variable {p : Provider} {h : Heap} {w : Workshop} {S s : Schema} {t u F : Ty}

namespace Provider

theorem Derivable.declares (ht : p.Derivable h s t) : s.Declares t := by
  cases ht with
  | concrete hc => exact Schema.declares_of_decl? hc
  | implemented hc => exact Schema.declares_of_decl? hc

/-- What a derivable class needs is derivable. -/
theorem Derivable.of_needs (ht : p.Derivable h s t) (hn : p.Needs s t F) : p.Derivable h s F := by
  obtain ⟨habs, q, hq, m, hc, ho, ha⟩ := hn
  cases ht with
  | concrete hd _ hcon => simp [Schema.isAbstract, hd, hcon] at habs
  | implemented _ _ _ G m' hG _ _ hderives =>
    obtain ⟨rfl, -⟩ := hc.unique (hG q hq)
    exact hderives q hq ho ha

/-- What a class needs that was declared at the beginning, it needed then. -/
theorem Needs.rebase (hs : S.Extends s) (hS : S.Closed) (hp : p.Within S) (ht : S.Declares t)
    (hn : p.Needs s t F) : p.Needs S t F := by
  obtain ⟨habs, q, hq, m, hc, ho, ha⟩ := hn
  rw [Schema.isAbstract_eq hs ht] at habs
  rw [Schema.abstractProperties_eq hs hS ht] at hq
  have hc : p.Chooses S t q F m := hc.rebase hs hS hp habs hq
  have hF : S.Declares F := hc.declares hS hp habs hq
  rw [owns_eq hs hF] at ho
  rw [Schema.isAbstract_eq hs hF] at ha
  exact ⟨habs, q, hq, m, hc, ho, ha⟩

/-- A derivable class does not need itself, not even indirectly. -/
theorem Derivable.acyclic (ht : p.Derivable h s t) : ¬ TransGen (p.Needs s) t t := by
  induction ht with
  | concrete hd _ hcon =>
    intro hcycle
    obtain ⟨F, hn, -⟩ := TransGen.head'_iff.mp hcycle
    simp [Needs, Schema.isAbstract, hd, hcon] at hn
  | @implemented t _ _ _ _ G m hG _ _ _ ih =>
    intro hcycle
    obtain ⟨F, hn, hback⟩ := TransGen.head'_iff.mp hcycle
    obtain ⟨-, q, hq, m', hc, ho, ha⟩ := id hn
    obtain ⟨rfl, -⟩ := hc.unique (hG q hq)
    exact ih q hq ho ha (TransGen.tail' hback hn)

/-- A class from which a circular need can be reached is not derivable. -/
theorem Derivable.not_reaches_cycle (ht : p.Derivable h s t) (hr : ReflTransGen (p.Needs s) t u) :
    ¬ TransGen (p.Needs s) u u := by
  have hu : p.Derivable h s u := by
    induction hr with
    | refl => exact ht
    | tail _ hn ih => exact ih.of_needs hn
  exact hu.acyclic

end Provider

/-! ## The search without memory -/

section
variable (w : Workshop) (S : Schema) (nested : Ty → Except RequestError Unit)

/-- Why the field of a property cannot be built. -/
def PropertyField.verdict (f : PropertyField) : Except RequestError Unit :=
  if w.provider.owns S f.fieldType then
    if S.isAbstract f.fieldType then nested f.fieldType
    else (FieldPlan.ofConcrete w f S).map fun _ => ()
  else .ok ()

/-- Why a property of an implementation cannot be made. -/
def Workshop.propertyVerdict (t : Ty) (q : PropertyDecl) (slot : Nat) :
    Except RequestError Unit := do
  let f ← PropertyField.choose w S t q slot
  f.verdict w S nested
  (f.setterShape S).map fun _ => ()

/-- Why one of some properties of an implementation cannot be made: the first reason. -/
def Workshop.propertiesVerdict (t : Ty) : List PropertyDecl → Nat → Except RequestError Unit
  | [], _ => .ok ()
  | q :: qs, slot => do
    w.propertyVerdict S nested t q slot
    propertiesVerdict t qs (slot + 1)

/-- Why a class has no descriptor. Nothing stands against a class that is `known`, and the report of an
implementation has to be one that `ends`. -/
def Workshop.verdict (known ends : Ty → Bool) :
    (levels : Nat) → (inFlight : List Ty) → Ty → Except RequestError Unit
  | 0, _, t => .error (.cyclicSynthesis (S.name t))
  | levels + 1, inFlight, t =>
    if known t then .ok ()
    else match S.decl? t with
    | none => .error (.notAClass (S.name t))
    | some d =>
      if !w.provider.isMapped t d then .error (.notMapped d.name)
      else if !d.isAbstract then .ok ()
      else if inFlight.contains t then .error (.cyclicSynthesis d.name)
      else do
        w.propertiesVerdict S (verdict known ends levels (t :: inFlight)) t (S.abstractProperties t)
          d.layout.length
        if ends t then .ok () else .error .endless

end

section
variable {nested nested' : Ty → Except RequestError Unit} {q : PropertyDecl} {slot : Nat}

/-- A property can be made if a field can be chosen for it that can be built and written. -/
theorem Workshop.propertyVerdict_eq_ok_iff :
    w.propertyVerdict S nested t q slot = .ok () ↔
      ∃ F m, w.provider.Chooses S t q F m ∧ q.MayUse m ∧
        (w.provider.owns S F = true → S.isAbstract F = false →
          w.provider.CanBuild w.heap S t q F) ∧
        (w.provider.owns S F = true → S.isAbstract F = true → nested F = .ok ()) := by
  have hverdict : ∀ f : PropertyField, f.parameters = w.provider.parameters f.owner f.property →
      (f.verdict w S nested = .ok () ↔
        (w.provider.owns S f.fieldType = true → S.isAbstract f.fieldType = false →
          w.provider.CanBuild w.heap S f.owner f.property f.fieldType) ∧
        (w.provider.owns S f.fieldType = true → S.isAbstract f.fieldType = true →
          nested f.fieldType = .ok ())) := by
    intro f hf
    rw [← FieldPlan.ofConcrete_isOk_iff hf, PropertyField.verdict]
    cases w.provider.owns S f.fieldType <;> cases S.isAbstract f.fieldType <;>
      cases FieldPlan.ofConcrete w f S <;> simp [Except.map]
  have hshape : ∀ f : PropertyField,
      ((f.setterShape S).map fun _ => ()) = .ok () ↔ f.property.MayUse f.member := by
    intro f
    rw [← PropertyField.setterShape_isOk_iff (s := S)]
    cases f.setterShape S <;> simp [Except.map]
  rw [propertyVerdict]
  constructor
  · intro hok
    cases hf : PropertyField.choose w S t q slot with
    | error e => simp [hf, bind, Except.bind] at hok
    | ok f =>
      obtain ⟨F, m, hc, rfl⟩ := PropertyField.choose_eq_ok_iff.mp hf
      cases hv : PropertyField.verdict w S nested
          ⟨t, q, F, m, w.provider.parameters t q, slot⟩ with
      | error e => simp [hf, hv, bind, Except.bind] at hok
      | ok _ =>
        simp only [hf, hv, bind, Except.bind] at hok
        exact ⟨F, m, hc, (hshape _).mp hok, (hverdict _ rfl).mp hv⟩
  · rintro ⟨F, m, hc, hu, hbn⟩
    rw [PropertyField.choose_eq_ok_iff.mpr ⟨F, m, hc, rfl⟩]
    have hv := (hverdict ⟨t, q, F, m, w.provider.parameters t q, slot⟩ rfl).mpr hbn
    simp only [bind, Except.bind, hv]
    exact (hshape _).mpr hu

theorem Workshop.propertiesVerdict_eq_ok_iff {qs : List PropertyDecl} :
    w.propertiesVerdict S nested t qs slot = .ok () ↔
      ∀ q ∈ qs, w.propertyVerdict S nested t q 0 = .ok () := by
  induction qs generalizing slot with
  | nil => simp [propertiesVerdict]
  | cons q qs ih =>
    have hq : w.propertyVerdict S nested t q slot = .ok () ↔
        w.propertyVerdict S nested t q 0 = .ok () := by
      rw [propertyVerdict_eq_ok_iff, propertyVerdict_eq_ok_iff]
    rw [propertiesVerdict, List.forall_mem_cons, ← @ih (slot + 1), ← hq]
    cases w.propertyVerdict S nested t q slot <;> simp [bind, Except.bind]

end

/-! ## Types in flight -/

/-- The types in flight when `t` is asked for with some levels left: different classes, each of
which needs `t`. With them the levels exceed the number of classes. -/
structure Provider.Chain (p : Provider) (s : Schema) (levels : Nat) (inFlight : List Ty)
    (t : Ty) : Prop where
  nodup : inFlight.Nodup
  classes : ∀ u ∈ inFlight, s.isClass u = true
  needs : ∀ u ∈ inFlight, TransGen (p.Needs s) u t
  levels : s.classes.size + 1 ≤ levels + inFlight.length

namespace Provider.Chain

variable {n : Nat} {inFlight : List Ty}

/-- At the beginning nothing is in flight. -/
theorem nil (hn : s.classes.size + 1 ≤ n) : p.Chain s n [] t :=
  ⟨.nil, by simp, by simp, by simpa using hn⟩

/-- There are levels left, as no more types can be in flight than there are classes. -/
theorem levels_pos (hc : p.Chain s n inFlight t) : 0 < n := by
  have hsub : inFlight ⊆ (List.range s.classes.size).map Ty.cls := by
    intro u hu
    have hclass := hc.classes u hu
    cases u with
    | cls c =>
      have hlt : c < s.classes.size := by
        simpa [Schema.isClass, Schema.decl?, Schema.class?] using hclass
      exact List.mem_map.mpr ⟨c, List.mem_range.mpr hlt, rfl⟩
    | any => simp [Schema.isClass, Schema.decl?] at hclass
    | carrier => simp [Schema.isClass, Schema.decl?] at hclass
    | scalar k => simp [Schema.isClass, Schema.decl?] at hclass
    | enum e => simp [Schema.isClass, Schema.decl?] at hclass
  have hlength := hc.nodup.length_le_of_subset hsub
  rw [List.length_map, List.length_range] at hlength
  have hlevels := hc.levels
  omega

/-- What a class that is not in flight needs is asked for with the class in flight. -/
theorem push (hc : p.Chain s (n + 1) inFlight t) (ht : t ∉ inFlight) (hn : p.Needs s t F) :
    p.Chain s n (t :: inFlight) F where
  nodup := List.nodup_cons.mpr ⟨ht, hc.nodup⟩
  classes u hu := by
    rcases List.mem_cons.mp hu with rfl | hu
    · exact Option.isSome_of_any hn.1
    · exact hc.classes u hu
  needs u hu := by
    rcases List.mem_cons.mp hu with rfl | hu
    · exact .single hn
    · exact (hc.needs u hu).tail hn
  levels := by
    have hlevels := hc.levels
    rw [List.length_cons]
    omega

end Provider.Chain

/-! ## The verdict decides -/

namespace Workshop

variable {n : Nat} {inFlight : List Ty} {known ends : Ty → Bool}

/-- What it takes that nothing stands against a class. -/
theorem verdict_succ_eq_ok_iff : w.verdict S known ends (n + 1) inFlight t = .ok () ↔
    known t = true ∨ ∃ c, S.decl? t = some c ∧ w.provider.isMapped t c = true ∧
      (c.isAbstract = false ∨ c.isAbstract = true ∧ t ∉ inFlight ∧ ends t = true ∧
        ∀ q ∈ S.abstractProperties t,
          w.propertyVerdict S (w.verdict S known ends n (t :: inFlight)) t q 0 = .ok ()) := by
  rw [verdict]
  cases known t with
  | true => simp
  | false =>
    cases S.decl? t with
    | none => simp
    | some c =>
      cases hm : w.provider.isMapped t c with
      | false => simp [hm]
      | true =>
        cases ha : c.isAbstract with
        | false => simp [hm, ha]
        | true =>
          have hproperties : w.propertiesVerdict S (w.verdict S known ends n (t :: inFlight)) t
                (S.abstractProperties t) c.layout.length = .ok () ↔
              ∀ q ∈ S.abstractProperties t,
                w.propertyVerdict S (w.verdict S known ends n (t :: inFlight)) t q 0 = .ok () :=
            propertiesVerdict_eq_ok_iff
          by_cases hin : t ∈ inFlight
          · simp [hm, ha, hin]
          · simp only [hm, ha, hin, List.contains_eq_mem, decide_false, Bool.not_true,
              Bool.false_eq_true, if_false, Option.some.injEq, exists_eq_left', true_and, false_or,
              not_false_eq_true, ← hproperties, reduceCtorEq]
            cases w.propertiesVerdict S (w.verdict S known ends n (t :: inFlight)) t
              (S.abstractProperties t) c.layout.length with
            | error e => simp [bind, Except.bind]
            | ok u => cases ends t <;> simp [bind, Except.bind]

/-- A derivable class is not refused, if what it needs is known or has a report that ends. -/
theorem verdict_of_ends (ht : w.provider.Derivable w.heap S t)
    (hends : ∀ u, ReflTransGen (w.provider.Needs S) t u → S.isAbstract u = true →
      known u = true ∨ ends u = true) (hc : w.provider.Chain S n inFlight t) :
    w.verdict S known ends n inFlight t = .ok () := by
  induction ht generalizing n inFlight with
  | concrete hd hm hcon =>
    obtain ⟨n, rfl⟩ := Nat.exists_eq_succ_of_ne_zero hc.levels_pos.ne'
    exact verdict_succ_eq_ok_iff.mpr (.inr ⟨_, hd, hm, .inl hcon⟩)
  | @implemented t c hd hm habs G m hG hu hb hn ih =>
    obtain ⟨n, rfl⟩ := Nat.exists_eq_succ_of_ne_zero hc.levels_pos.ne'
    have ht : S.isAbstract t = true := by simp [Schema.isAbstract, hd, habs]
    have hfree : t ∉ inFlight := fun hmem =>
      (Provider.Derivable.implemented hd hm habs G m hG hu hb hn).acyclic (hc.needs t hmem)
    rw [verdict_succ_eq_ok_iff]
    rcases hends t .refl ht with hknown | hreport
    · exact .inl hknown
    · refine .inr ⟨c, hd, hm, .inr ⟨habs, hfree, hreport, fun q hq => ?_⟩⟩
      rw [propertyVerdict_eq_ok_iff]
      refine ⟨G q, m q, hG q hq, hu q hq, hb q hq, fun ho ha => ?_⟩
      have hneeds : w.provider.Needs S t (G q) := ⟨ht, q, hq, m q, hG q hq, ho, ha⟩
      exact ih q hq ho ha (fun u hreach => hends u (.head hneeds hreach)) (hc.push hfree hneeds)

/-- An abstract class whose properties can be made is derivable, if what is needed is. -/
theorem derivable_of_properties {nested : Ty → Except RequestError Unit} {c : ClassDecl}
    (hc : S.decl? t = some c) (hm : w.provider.isMapped t c = true) (ha : c.isAbstract = true)
    (hnested : ∀ F, nested F = .ok () → w.provider.Derivable w.heap S F)
    (hv : ∀ q ∈ S.abstractProperties t, w.propertyVerdict S nested t q 0 = .ok ()) :
    w.provider.Derivable w.heap S t := by
  simp only [propertyVerdict_eq_ok_iff] at hv
  have : Nonempty Ty := ⟨.any⟩
  choose! G m hG hu hb hn using hv
  exact .implemented hc hm ha G m hG hu hb fun q hq ho ha => hnested _ (hn q hq ho ha)

/-- A class that is not refused is derivable, if those that are known are. -/
theorem derivable_of_verdict (hknown : ∀ u, known u = true → w.provider.Derivable w.heap S u)
    (hv : w.verdict S known ends n inFlight t = .ok ()) : w.provider.Derivable w.heap S t := by
  induction n generalizing inFlight t with
  | zero => cases hv
  | succ n ih =>
    rcases verdict_succ_eq_ok_iff.mp hv with hk | ⟨c, hd, hm, ha | ⟨ha, -, -, hv⟩⟩
    · exact hknown t hk
    · exact .concrete hd hm ha
    · exact derivable_of_properties hd hm ha (fun _ hF => ih hF) hv

/-- What a class needs that is not refused is known, or has a report that ends. -/
theorem ends_of_verdict (hknown : ∀ {u F}, known u = true → w.provider.Needs S u F → known F = true)
    (hv : w.verdict S known ends n inFlight t = .ok ())
    (hr : ReflTransGen (w.provider.Needs S) t u) (hu : S.isAbstract u = true) :
    known u = true ∨ ends u = true := by
  induction n generalizing inFlight t with
  | zero => cases hv
  | succ n ih =>
    rcases verdict_succ_eq_ok_iff.mp hv with hk | ⟨c, hd, -, ha | ⟨-, -, hends, hv⟩⟩
    · -- what is needed by a class that is known is known
      left
      clear ih hu
      induction hr with
      | refl => exact hk
      | tail _ hn ihr => exact hknown ihr hn
    · have hconcrete : S.isAbstract t = false := by simp [Schema.isAbstract, hd, ha]
      rcases ReflTransGen.cases_head hr with rfl | ⟨F, hF, -⟩
      · rw [hconcrete] at hu
        cases hu
      · rw [hF.1] at hconcrete
        cases hconcrete
    · rcases ReflTransGen.cases_head hr with rfl | ⟨F, ⟨-, q, hq, m, hc, ho, ha⟩, hrest⟩
      · exact .inr hends
      · obtain ⟨G, m', hG, -, -, hn⟩ := propertyVerdict_eq_ok_iff.mp (hv q hq)
        obtain ⟨rfl, -⟩ := hc.unique hG
        exact ih (hn ho ha) hrest

/-- Where nothing is known before, the verdict accepts exactly the derivable classes for which all
reports end. -/
theorem verdict_eq_ok_iff (hknown : ∀ u, known u = false) (hc : w.provider.Chain S n inFlight t) :
    w.verdict S known ends n inFlight t = .ok () ↔ w.provider.Derivable w.heap S t ∧
      ∀ u, ReflTransGen (w.provider.Needs S) t u → S.isAbstract u = true → ends u = true := by
  constructor
  · intro hv
    have hnew : ∀ {u}, known u ≠ true := fun hu => Bool.false_ne_true ((hknown _).symm.trans hu)
    refine ⟨derivable_of_verdict (fun u hu => absurd hu hnew) hv, fun u hr hu => ?_⟩
    exact (ends_of_verdict (fun hu => absurd hu hnew) hv hr hu).resolve_left hnew
  · exact fun ⟨ht, hends⟩ => verdict_of_ends ht (fun u hr hu => .inr (hends u hr hu)) hc

/-! ## Refusals that come from below -/

theorem of_map_eq_error {α β : Type} {x : Except RequestError α} {f : α → β} {e : RequestError}
    (h : x.map f = .error e) : x = .error e := by
  cases x with
  | error e' => exact congrArg Except.error (Except.error.inj h)
  | ok a => cases h

end Workshop

/-- A refusal that is none of a field by itself: for a cycle, or a report without an end. -/
def RequestError.IsNested : RequestError → Prop
  | cyclicSynthesis _ | endless => True
  | _ => False

section
variable {e : RequestError} {q : PropertyDecl} {slot : Nat} {f : PropertyField}
variable {nested : Ty → Except RequestError Unit}

theorem PropertyField.choose_eq_error (h : choose w S t q slot = .error e) : ¬e.IsNested := by
  rw [choose] at h
  split at h
  · cases h
  · split at h <;> cases h
    exact id

theorem FieldPlan.ofConcrete_eq_error : ofConcrete w f S = .error e → ¬e.IsNested := by
  rw [ofConcrete, fallback]
  obtain ⟨default, factory⟩ := sources w.heap S f.fieldType f.parameters
  intro h
  cases default with
  | some source => cases h
  | none =>
    cases hd : S.publicDefault? f.fieldType <;> rw [hd] at h <;> cases h
    exact id

theorem PropertyField.setterShape_eq_error (h : f.setterShape S = .error e) : ¬e.IsNested := by
  rw [setterShape] at h
  split at h
  · cases h
  · split at h
    · cases h
    · split at h <;> cases h
      exact id

/-- A property is refused for what its class needs, or it would be if that was granted. -/
theorem Workshop.propertyVerdict_eq_error (ht : S.isAbstract t = true)
    (hq : q ∈ S.abstractProperties t) (h : w.propertyVerdict S nested t q slot = .error e) :
    (∃ F, w.provider.Needs S t F ∧ nested F = .error e) ∨
      w.propertyVerdict S (fun _ => .ok ()) t q slot = .error e := by
  rw [propertyVerdict] at h ⊢
  cases hf : PropertyField.choose w S t q slot with
  | error e' =>
    rw [hf] at h
    exact .inr h
  | ok f =>
    obtain ⟨F, m, hc, rfl⟩ := PropertyField.choose_eq_ok_iff.mp hf
    simp only [hf, bind, Except.bind, PropertyField.verdict] at h ⊢
    cases ho : w.provider.owns S F with
    | false => exact .inr (by simpa [ho] using h)
    | true =>
      cases ha : S.isAbstract F with
      | false => exact .inr (by simpa [ho, ha] using h)
      | true =>
        simp only [ho, ha, if_true] at h ⊢
        cases hn : nested F with
        | error e' =>
          rw [hn] at h
          exact .inl ⟨F, ⟨ht, q, hq, m, hc, ho, ha⟩, hn.trans h⟩
        | ok u =>
          rw [hn] at h
          exact .inr h

theorem Workshop.not_isNested_of_granted
    (h : w.propertyVerdict S (fun _ => .ok ()) t q slot = .error e) : ¬e.IsNested := by
  rw [propertyVerdict] at h
  cases hf : PropertyField.choose w S t q slot with
  | error e' =>
    rw [hf] at h
    exact Except.error.inj h ▸ PropertyField.choose_eq_error hf
  | ok f =>
    simp only [hf, bind, Except.bind] at h
    split at h
    · next e' hv =>
      rw [PropertyField.verdict] at hv
      split at hv
      · split at hv
        · cases hv
        · exact Except.error.inj h ▸ FieldPlan.ofConcrete_eq_error (of_map_eq_error hv)
      · cases hv
    · exact PropertyField.setterShape_eq_error (of_map_eq_error h)

/-- Properties are refused for one of them. -/
theorem Workshop.exists_property_of_refused {qs : List PropertyDecl}
    (h : w.propertiesVerdict S nested t qs slot = .error e) :
    ∃ q ∈ qs, ∃ k, w.propertyVerdict S nested t q k = .error e := by
  induction qs generalizing slot with
  | nil => cases h
  | cons q qs ih =>
    rw [propertiesVerdict] at h
    cases hq : w.propertyVerdict S nested t q slot with
    | error e' =>
      rw [hq] at h
      exact ⟨q, List.mem_cons_self, slot, hq.trans h⟩
    | ok _ =>
      rw [hq] at h
      obtain ⟨q', hq', hk⟩ := ih h
      exact ⟨q', List.mem_cons_of_mem _ hq', hk⟩

end

namespace Workshop

variable {n : Nat} {inFlight : List Ty} {known ends : Ty → Bool} {e : RequestError} {name : String}

/-- Why an abstract class is refused for a cycle or for a report without an end: it is met in flight, or
its own report has none, or what it needs is refused. -/
theorem verdict_succ_eq_error (he : e.IsNested)
    (h : w.verdict S known ends (n + 1) inFlight t = .error e) : known t = false ∧ ∃ d,
      S.decl? t = some d ∧ w.provider.isMapped t d = true ∧ d.isAbstract = true ∧
        ((e = .cyclicSynthesis d.name ∧ t ∈ inFlight) ∨ (t ∉ inFlight ∧
          ((e = .endless ∧ ends t = false) ∨ ∃ F, w.provider.Needs S t F ∧
            w.verdict S known ends n (t :: inFlight) F = .error e))) := by
  rw [verdict] at h
  split at h
  · cases h
  · next hknown =>
    refine ⟨by simpa using hknown, ?_⟩
    cases hd : S.decl? t with
    | none =>
      rw [hd] at h
      obtain rfl := Except.error.inj h
      exact he.elim
    | some d =>
      rw [hd] at h
      dsimp only at h
      split at h
      · obtain rfl := Except.error.inj h
        exact he.elim
      · next hm =>
        split at h
        · cases h
        · next ha =>
          have hmapped : w.provider.isMapped t d = true := by simpa using hm
          have habs : d.isAbstract = true := by simpa using ha
          refine ⟨d, rfl, hmapped, habs, ?_⟩
          split at h
          · next hcontains => exact .inl ⟨(Except.error.inj h).symm, by simpa using hcontains⟩
          · next hfree =>
            refine .inr ⟨by simpa using hfree, ?_⟩
            cases hproperties : w.propertiesVerdict S (w.verdict S known ends n (t :: inFlight)) t
                (S.abstractProperties t) d.layout.length with
            | error e' =>
              rw [hproperties] at h
              obtain rfl := Except.error.inj h
              obtain ⟨q, hq, k, hq'⟩ := exists_property_of_refused hproperties
              have ht : S.isAbstract t = true := by simp [Schema.isAbstract, hd, habs]
              exact .inr ((propertyVerdict_eq_error ht hq hq').resolve_right fun hgranted =>
                not_isNested_of_granted hgranted he)
            | ok u =>
              rw [hproperties] at h
              cases hends : ends t with
              | true => simp [hends, bind, Except.bind] at h
              | false =>
                simp only [hends, bind, Except.bind, Bool.false_eq_true, if_false] at h
                exact .inl ⟨(Except.error.inj h).symm, rfl⟩

/-- **A cycle is a class that needs itself.** If a class is refused for a cycle, the class named in the
refusal is abstract and mapped, is needed by it, and needs itself. -/
theorem exists_cycle (hc : w.provider.Chain S n inFlight t)
    (h : w.verdict S known ends n inFlight t = .error (.cyclicSynthesis name)) :
    ∃ u d, ReflTransGen (w.provider.Needs S) t u ∧ S.decl? u = some d ∧
      w.provider.isMapped u d = true ∧ d.isAbstract = true ∧ d.name = name ∧
        TransGen (w.provider.Needs S) u u := by
  induction n generalizing inFlight t with
  | zero => exact absurd hc.levels_pos (Nat.lt_irrefl 0)
  | succ n ih =>
    obtain ⟨-, d, hd, hm, ha, ⟨he, hin⟩ | ⟨hfree, ⟨he, -⟩ | ⟨F, hF, hnested⟩⟩⟩ :=
      verdict_succ_eq_error (by trivial) h
    · -- the chain from a type that is in flight to itself is a cycle
      obtain rfl := RequestError.cyclicSynthesis.inj he
      exact ⟨t, d, .refl, hd, hm, ha, rfl, hc.needs t hin⟩
    · cases he
    · obtain ⟨u, d', hreach, hrest⟩ := ih (hc.push hfree hF) hnested
      exact ⟨u, d', .head hF hreach, hrest⟩

/-- **A request without an end** comes to a class that is not known and whose report has no end. -/
theorem exists_endless (hc : w.provider.Chain S n inFlight t)
    (h : w.verdict S known ends n inFlight t = .error .endless) :
    ∃ u, ReflTransGen (w.provider.Needs S) t u ∧ known u = false ∧ S.isAbstract u = true ∧
      ends u = false := by
  induction n generalizing inFlight t with
  | zero => exact absurd hc.levels_pos (Nat.lt_irrefl 0)
  | succ n ih =>
    obtain ⟨hk, d, hd, hm, ha, ⟨he, -⟩ | ⟨hfree, ⟨-, hends⟩ | ⟨F, hF, hnested⟩⟩⟩ :=
      verdict_succ_eq_error (by trivial) h
    · cases he
    · exact ⟨t, .refl, hk, by simp [Schema.isAbstract, hd, ha], hends⟩
    · obtain ⟨u, hreach, hrest⟩ := ih (hc.push hfree hF) hnested
      exact ⟨u, .head hF hreach, hrest⟩

/-- A derivable class is refused for nothing but a report without an end. -/
theorem verdict_of_derivable (ht : w.provider.Derivable w.heap S t)
    (hc : w.provider.Chain S n inFlight t) : w.verdict S known ends n inFlight t = .ok () ∨
      w.verdict S known ends n inFlight t = .error .endless := by
  induction ht generalizing n inFlight with
  | concrete hd hm hcon =>
    obtain ⟨n, rfl⟩ := Nat.exists_eq_succ_of_ne_zero hc.levels_pos.ne'
    exact .inl (verdict_succ_eq_ok_iff.mpr (.inr ⟨_, hd, hm, .inl hcon⟩))
  | @implemented t c hd hm habs G m hG hu hb hn ih =>
    obtain ⟨n, rfl⟩ := Nat.exists_eq_succ_of_ne_zero hc.levels_pos.ne'
    have ht : S.isAbstract t = true := by simp [Schema.isAbstract, hd, habs]
    have hfree : t ∉ inFlight := fun hmem =>
      (Provider.Derivable.implemented hd hm habs G m hG hu hb hn).acyclic (hc.needs t hmem)
    rw [verdict]
    cases known t with
    | true => exact .inl rfl
    | false =>
      simp only [hd, hm, habs, hfree, List.contains_eq_mem, decide_false, Bool.not_true,
        Bool.false_eq_true, if_false]
      cases hproperties : w.propertiesVerdict S (w.verdict S known ends n (t :: inFlight)) t
          (S.abstractProperties t) c.layout.length with
      | ok u => cases ends t <;> simp [bind, Except.bind]
      | error e =>
        -- each property would be granted, so what is needed is refused
        obtain ⟨q, hq, k, hrefused⟩ := exists_property_of_refused hproperties
        rcases propertyVerdict_eq_error ht hq hrefused with ⟨F, hF, hnested⟩ | hgranted
        · obtain ⟨-, q', hq', m', hc', ho, ha⟩ := id hF
          obtain ⟨rfl, -⟩ := hc'.unique (hG q' hq')
          rcases ih q' hq' ho ha (hc.push hfree hF) with hok | hendless
          · cases hok.symm.trans hnested
          · exact .inr (congrArg Except.error (Except.error.inj (hnested.symm.trans hendless)))
        · have hok : w.propertyVerdict S (fun _ => .ok ()) t q k = .ok () :=
            propertyVerdict_eq_ok_iff.mpr ⟨G q, m q, hG q hq, hu q hq, hb q hq, fun _ _ => rfl⟩
          cases hok.symm.trans hgranted

/-! ## What the verdict depends on -/

section
variable (w : Workshop) (r : RegistryId) (S : Schema)

theorem propertiesVerdict_registry (nested : Ty → Except RequestError Unit) (t : Ty)
    (qs : List PropertyDecl) (slot : Nat) :
    propertiesVerdict { w with registry := r } S nested t qs slot =
      w.propertiesVerdict S nested t qs slot := by
  induction qs generalizing slot with
  | nil => rfl
  | cons q qs ih =>
    rw [propertiesVerdict, propertiesVerdict, ih]
    rfl

/-- The verdict does not depend on the registry that is asked. -/
theorem verdict_registry (known ends : Ty → Bool) (n : Nat) (inFlight : List Ty) (t : Ty) :
    verdict { w with registry := r } S known ends n inFlight t =
      w.verdict S known ends n inFlight t := by
  induction n generalizing inFlight t with
  | zero => rfl
  | succ n ih =>
    have ih : ∀ inFlight, verdict { w with registry := r } S known ends n inFlight =
        w.verdict S known ends n inFlight := fun inFlight => funext (ih inFlight)
    simp only [verdict, ih, propertiesVerdict_registry]

end

/-- The verdict on the properties of a class depends on the verdicts on what the class needs. -/
theorem propertiesVerdict_eq {s : Schema} (hs : S.Extends s) (hS : S.Closed)
    (hp : w.provider.Within S) (hd : S.Declares t) (ht : S.isAbstract t = true)
    {nested nested' : Ty → Except RequestError Unit}
    (hn : ∀ F, w.provider.Needs S t F → S.Declares F → nested' F = nested F)
    {qs : List PropertyDecl} (hqs : ∀ q ∈ qs, q ∈ S.abstractProperties t) {slot : Nat} :
    w.propertiesVerdict s nested' t qs slot = w.propertiesVerdict S nested t qs slot := by
  induction qs generalizing slot with
  | nil => rfl
  | cons q qs ih =>
    have hq := hqs q List.mem_cons_self
    have hproperty : w.propertyVerdict s nested' t q slot =
        w.propertyVerdict S nested t q slot := by
      rw [propertyVerdict, propertyVerdict, PropertyField.choose_eq hs hS hp ht hd hq slot]
      cases hf : PropertyField.choose w S t q slot with
      | error e => rfl
      | ok f =>
        obtain ⟨F, m, hc, rfl⟩ := PropertyField.choose_eq_ok_iff.mp hf
        have hF : S.Declares F := hc.declares hS hp ht hq
        have hfield : PropertyField.verdict w s nested'
              ⟨t, q, F, m, w.provider.parameters t q, slot⟩ =
            PropertyField.verdict w S nested
              ⟨t, q, F, m, w.provider.parameters t q, slot⟩ := by
          simp only [PropertyField.verdict, Provider.owns_eq hs hF, Schema.isAbstract_eq hs hF]
          rw [FieldPlan.ofConcrete_eq hs hF]
          split
          · next ho =>
            split
            · next ha => exact hn F ⟨ht, q, hq, m, hc, ho, ha⟩ hF
            · rfl
          · rfl
        simp only [bind, Except.bind, hfield]
        rw [PropertyField.setterShape_eq hs hF hd]
    rw [propertiesVerdict, propertiesVerdict, hproperty,
      ih fun q hm => hqs q (List.mem_cons_of_mem _ hm)]

/-- The verdict on a type that was declared at the beginning is the same over every later schema,
with any number of levels that is sufficient. -/
theorem verdict_eq {s : Schema} (hs : S.Extends s) (hS : S.Closed) (hp : w.provider.Within S)
    (hd : S.Declares t) {known ends ends' : Ty → Bool}
    (hends : ∀ u, S.Declares u → S.isAbstract u = true → ends' u = ends u) {n' : Nat}
    (hc : w.provider.Chain S n inFlight t) (hc' : w.provider.Chain S n' inFlight t) :
    w.verdict s known ends' n' inFlight t = w.verdict S known ends n inFlight t := by
  induction n generalizing n' inFlight t with
  | zero => exact absurd hc.levels_pos (Nat.lt_irrefl 0)
  | succ n ih =>
    obtain ⟨n', rfl⟩ := Nat.exists_eq_succ_of_ne_zero hc'.levels_pos.ne'
    rw [verdict, verdict, Schema.decl?_eq hs hd, Schema.name_eq hs hd]
    split
    · rfl
    · cases hdecl : S.decl? t with
      | none => rfl
      | some c =>
        simp only [Schema.abstractProperties_eq hs hS hd]
        split
        · rfl
        · split
          · rfl
          · next habs =>
            split
            · rfl
            · next hfree =>
              have ht : S.isAbstract t = true := by
                simpa [Schema.isAbstract, hdecl] using habs
              have hfree : t ∉ inFlight := by simpa using hfree
              have hproperties : w.propertiesVerdict s (w.verdict s known ends' n' (t :: inFlight)) t
                    (S.abstractProperties t) c.layout.length =
                  w.propertiesVerdict S (w.verdict S known ends n (t :: inFlight)) t
                    (S.abstractProperties t) c.layout.length :=
                propertiesVerdict_eq hs hS hp hd ht
                  (fun F hF hdF => ih hdF (hc.push hfree hF) (hc'.push hfree hF)) fun _ hq => hq
              rw [hproperties, hends t hd ht]

end Workshop

/-- A class that was declared at the beginning is derivable over every later schema or over none. -/
theorem Provider.Derivable.rebase {s : Schema} (hs : S.Extends s) (hS : S.Closed)
    (hp : w.provider.Within S) (hd : S.Declares t) :
    w.provider.Derivable w.heap s t ↔ w.provider.Derivable w.heap S t := by
  have hc : w.provider.Chain S (s.classes.size + 1) [] t :=
    .nil (Nat.add_le_add_right hs.size_le 1)
  have hverdict : ∀ {S : Schema}, w.provider.Chain S (s.classes.size + 1) [] t →
      (w.verdict S (fun _ => false) (fun _ => true) (s.classes.size + 1) [] t = .ok () ↔
        w.provider.Derivable w.heap S t) := fun hc => by
    simp [Workshop.verdict_eq_ok_iff (fun _ => rfl) hc]
  have heq : w.verdict s (fun _ => false) (fun _ => true) (s.classes.size + 1) [] t =
      w.verdict S (fun _ => false) (fun _ => true) (s.classes.size + 1) [] t :=
    Workshop.verdict_eq hs hS hp hd (fun _ _ _ => rfl) hc hc
  rw [← hverdict hc, ← heq]
  exact (hverdict (.nil (Nat.le_refl _))).symm

end RecordForge
