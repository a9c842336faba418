import RecordForge.Proofs.Heap.Storage
import RecordForge.Proofs.Schema.Drafts
import RecordForge.Proofs.Schema.Growth

/-!
# Proper schemas

A schema that comes about by declarations is *proper*: besides being closed, it needs no objects of
undeclared classes where fields are blank, and its abstract classes are shared by reference.
-/

namespace RecordForge

namespace Schema

/-- The schema is closed, what its fields hold before anything is stored there are objects of
declared classes, and its abstract classes are shared by reference. -/
structure Proper (s : Schema) : Prop where
  closed : s.Closed
  blanks : ∀ {c d}, s.class? c = some d → ∀ f ∈ d.layout, f.blank.All fun k => s.Declares (.cls k)
  references : ∀ {c d}, s.class? c = some d → d.isAbstract = true → d.isValueType = false

variable {s s' : Schema} {t : Ty} {d : ClassDecl}

theorem proper_empty : Proper {} := by
  have hnone : ∀ {c d}, ({} : Schema).class? c ≠ some d := fun h => nomatch h
  exact ⟨fun h => (hnone h).elim, fun h => (hnone h).elim, fun h => (hnone h).elim⟩

/-- A blank needs the same classes in a later schema. -/
theorem all_declares_mono (h : s.Extends s') {b : Blank}
    (hb : b.All fun k => s.Declares (.cls k)) : b.All fun k => s'.Declares (.cls k) := by
  induction hb with
  | null => exact .null
  | scalar x => exact .scalar x
  | record hc _ ih => exact .record (hc.mono h) ih

theorem Proper.layout (hs : s.Proper) (hd : s.decl? t = some d) :
    ∀ f ∈ d.layout, f.blank.All fun k => s.Declares (.cls k) := by
  obtain ⟨c, rfl, -⟩ := lt_size_of_decl? hd
  exact hs.blanks hd

theorem all_elim_scalar {C : ClassId → Prop} (x : Option Scalar) :
    (x.elim .null .scalar : Blank).All C := by
  cases x with
  | none => exact .null
  | some x => exact .scalar x

/-- The blank of a type needs declared classes only. -/
theorem Proper.blank_all (hs : s.Proper) (t : Ty) :
    (s.blank t).All fun k => s.Declares (.cls k) := by
  cases t with
  | any => exact .null
  | carrier => exact .null
  | scalar k => exact all_elim_scalar k.zero?
  | enum e =>
    show ((s.underlying? (.enum e)).elim .null fun k => k.zero?.elim .null .scalar : Blank).All _
    cases s.underlying? (.enum e) with
    | none => exact .null
    | some k => exact all_elim_scalar k.zero?
  | cls c =>
    rw [blank]
    cases hd : s.class? c with
    | none => exact .null
    | some d =>
      dsimp only
      split
      · refine .record (Option.isSome_iff_exists.mpr ⟨d, hd⟩) fun b hb => ?_
        obtain ⟨f, hf, rfl⟩ := List.mem_map.mp hb
        exact hs.blanks hd f hf
      · exact .null

/-- A proper schema stays proper when a class is added that fits. -/
theorem Proper.add (hs : s.Proper) (hcovers : (s.addClass d).2.Covers d)
    (hblanks : ∀ f ∈ d.layout, f.blank.All fun k => s.Declares (.cls k))
    (href : d.isAbstract = true → d.isValueType = false) : (s.addClass d).2.Proper where
  closed := Closed.addClass hs.closed hcovers
  blanks {c d'} hc f hf := by
    refine all_declares_mono (extends_addClass s d) ?_
    rcases class?_addClass_eq_some hc with ⟨-, rfl⟩ | hc
    · exact hblanks f hf
    · exact hs.blanks hc f hf
  references {c d'} hc := by
    rcases class?_addClass_eq_some hc with ⟨-, rfl⟩ | hc
    · exact href
    · exact hs.references hc

theorem Proper.addEnum (hs : s.Proper) (e : EnumDecl) : (s.addEnum e).2.Proper :=
  have he := extends_addEnum s e
  ⟨fun hc => (hs.closed hc).mono he, fun hc f hf => all_declares_mono he (hs.blanks hc f hf),
    hs.references⟩

/-! ## Declaring classes -/

theorem declare_eq_ok_iff {draft : ClassDraft} {c : ClassId} :
    s.declare draft = .ok (c, s') ↔
      s.offence? draft = none ∧ s.addClass (s.finish draft) = (c, s') := by
  rw [declare]
  cases s.offence? draft with
  | none => simp
  | some e => simp

/-- A class that is declared is shared by reference if it is abstract. -/
theorem references_of_offence? {draft : ClassDraft} (h : s.offence? draft = none)
    (ha : (s.finish draft).isAbstract = true) : (s.finish draft).isValueType = false := by
  have ha : draft.isAbstract = true := ha
  show draft.isValueType = false
  refine Bool.eq_false_iff.mpr fun hv => ?_
  exact Bool.false_ne_true (((offence?_eq_none_iff.mp h).1 hv).symm.trans ha)

/-- The base of a class that is declared is a class that is shared by reference. -/
theorem base_of_offence? {draft : ClassDraft} (h : s.offence? draft = none)
    (hbase : draft.base = some t) :
    ∃ c d, t = .cls c ∧ c < s.classes.size ∧ s.class? c = some d ∧ d.isValueType = false := by
  obtain ⟨-, hreference, -⟩ := offence?_eq_none_iff.mp h
  obtain ⟨d, hd, hv⟩ := (Option.any_eq_true _ _).mp (hreference t hbase).1
  obtain ⟨c, rfl, hlt⟩ := lt_size_of_decl? hd
  exact ⟨c, d, rfl, hlt, hd, by simpa using hv⟩

theorem Proper.declare (hs : s.Proper) {draft : ClassDraft} {c : ClassId}
    (h : s.declare draft = .ok (c, s')) (hcovers : s'.Covers (s.finish draft)) : s'.Proper := by
  obtain ⟨hoffence, hadd⟩ := declare_eq_ok_iff.mp h
  obtain rfl : (s.addClass (s.finish draft)).2 = s' := congrArg Prod.snd hadd
  refine hs.add hcovers (fun f hf => ?_) (references_of_offence? hoffence)
  -- fields are inherited or new
  rcases List.mem_append.mp hf with hf | hf
  · cases hbase : draft.base.bind s.decl? with
    | none => simp [hbase] at hf
    | some d =>
      rw [hbase] at hf
      obtain ⟨b, -, hb⟩ := Option.bind_eq_some_iff.mp hbase
      exact hs.layout hb f hf
  · obtain ⟨x, -, rfl⟩ := List.mem_map.mp hf
    exact hs.blank_all x.2.1

theorem extends_declare {draft : ClassDraft} {c : ClassId} (h : s.declare draft = .ok (c, s')) :
    s.Extends s' := by
  obtain ⟨-, hadd⟩ := declare_eq_ok_iff.mp h
  obtain rfl : (s.addClass (s.finish draft)).2 = s' := congrArg Prod.snd hadd
  exact extends_addClass s _

end Schema

end RecordForge
