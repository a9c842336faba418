import RecordForge.Proofs.Synthesis.Realization
import RecordForge.Registry

/-!
# What a search goes through

A search adds lookups, and finishes descriptors and classes, one after the other. A relation between sessions
that holds along each of these steps holds along the whole search (`Registry.find_goes`).

So the schema grows along a search, and each abstract class that is implemented gets a class that was not
there before (`Registry.find_stages`).
-/

namespace RecordForge

theorem RequestError.bind_eq_ok_iff {α β : Type} {x : Except RequestError α}
    {f : α → Except RequestError β} {b : β} :
    (x >>= f) = .ok b ↔ ∃ a, x = .ok a ∧ f a = .ok b := by
  cases x with
  | error e =>
    exact ⟨(fun h => nomatch h), fun ⟨_, h, _⟩ => nomatch h⟩
  | ok a => exact ⟨fun h => ⟨a, rfl, h⟩, fun ⟨_, h, hb⟩ => Except.ok.inj h ▸ hb⟩

open RequestError (bind_eq_ok_iff)

/-- An implementation that has been finished has been reported. -/
theorem Implementation.exists_report {w : Workshop} {i : Implementation} {s s' : Session}
    {d : DescriptorId} (h : i.finish w s = .ok (d, s')) :
    ∃ report, i.report s.schema w.heap = some report ∧
      (s.addClass (i.decl s.schema)).2.stage i.type
        (i.descriptor w report (s.addClass (i.decl s.schema)).1) = (d, s') := by
  rw [finish] at h
  cases hreport : i.report s.schema w.heap with
  | none =>
    rw [hreport] at h
    cases h
  | some report =>
    rw [hreport] at h
    exact ⟨report, rfl, Except.ok.inj h⟩

/-! ## Relations along a search -/

/-- A relation between sessions that does not mind lookups. -/
structure Session.Goes (R : Session → Session → Prop) : Prop where
  refl : ∀ s, R s s
  trans : ∀ {s s' s''}, R s s' → R s' s'' → R s s''
  addLookup : ∀ s l, R s (s.addLookup l).2

/-- A relation holds along a request. -/
def Request.Goes (R : Session → Session → Prop) (request : Request) : Prop :=
  ∀ {t s d s'}, request t s = .ok (d, s') → R s s'

section
variable {R : Session → Session → Prop} {w : Workshop} {request : Request} {s s' : Session}
variable (hR : Session.Goes R) (hreq : request.Goes R)
include hR hreq

theorem FieldPlan.make_goes {f : PropertyField} {plan : Option FieldPlan}
    (h : make w request f s = .ok (plan, s')) : R s s' := by
  rw [make] at h
  split at h
  · cases h
    exact hR.refl s
  · split at h
    · cases h
      exact hR.refl s
    · split at h
      · obtain ⟨⟨plan', s₁⟩, habstract, h⟩ := bind_eq_ok_iff.mp h
        cases h
        obtain ⟨⟨d, s₂⟩, hd, h⟩ := bind_eq_ok_iff.mp habstract
        have hgoes : R s (s₂.addLookup ⟨f.fieldType, w.registry, none⟩).2 :=
          hR.trans (hreq hd) (hR.addLookup s₂ _)
        dsimp only at h
        split at h
        · cases h
          exact hgoes
        · obtain ⟨source, -, h⟩ := bind_eq_ok_iff.mp h
          cases h
          exact hgoes
      · obtain ⟨plan', -, h⟩ := bind_eq_ok_iff.mp h
        cases h
        exact hR.refl s

/-- What is true of each property when it is made, and stays so, is true of all in the end. -/
theorem ForgedProperty.makeAll_goes {P : ForgedProperty → Session → Prop}
    (hmade : ∀ {t q slot f s s'}, make w request t q slot s = .ok (f, s') → P f s')
    (hstays : ∀ {f s s'}, R s s' → P f s → P f s') {t : Ty} {qs : List PropertyDecl} {slot : Nat}
    {fs : List ForgedProperty} (h : makeAll w request t qs slot s = .ok (fs, s')) :
    R s s' ∧ ∀ f ∈ fs, P f s' := by
  induction qs generalizing slot s fs with
  | nil =>
    cases h
    exact ⟨hR.refl _, fun _ hf => nomatch hf⟩
  | cons q qs ih =>
    obtain ⟨⟨f, s₁⟩, hf, h⟩ := bind_eq_ok_iff.mp h
    obtain ⟨⟨fs', s₂⟩, hfs, h⟩ := bind_eq_ok_iff.mp h
    cases h
    obtain ⟨hrest, hall⟩ := ih hfs
    have hfirst := hmade hf
    obtain ⟨field, -, hf⟩ := bind_eq_ok_iff.mp hf
    obtain ⟨⟨plan, s₃⟩, hplan, hf⟩ := bind_eq_ok_iff.mp hf
    obtain ⟨shape, -, hf⟩ := bind_eq_ok_iff.mp hf
    cases hf
    exact ⟨hR.trans (FieldPlan.make_goes hR hreq hplan) hrest,
      List.forall_mem_cons.mpr ⟨hstays hrest hfirst, hall⟩⟩

end

/-- **A relation that holds along each step** of a search holds along the search. An implementation is
finished from properties that have been made, of which a statement that stays true can be relied on. -/
theorem Registry.find_goes {R : Session → Session → Prop} {P : ForgedProperty → Session → Prop}
    (hR : Session.Goes R) (r : Registry) (w : Workshop)
    (hstage : ∀ s t, R s (s.stage t (Descriptor.concrete s.schema t w.listener)).2)
    (hmade : ∀ {request t q slot f s s'}, Request.Goes R request →
      ForgedProperty.make w request t q slot s = .ok (f, s') → P f s')
    (hstays : ∀ {f s s'}, R s s' → P f s → P f s')
    (hfinish : ∀ {i : Implementation} {s s' d}, (∀ f ∈ i.properties, P f s) →
      i.finish w s = .ok (d, s') → R s s') (n : Nat) (inFlight : List Ty) : Request.Goes R (r.find w n inFlight) := by
  induction n generalizing inFlight with
  | zero => exact fun h => nomatch h
  | succ n ih =>
    intro t s d s' h
    rw [find] at h
    split at h
    · cases h
      exact hR.refl s
    · split at h
      · cases h
      · split at h
        · cases h
        · split at h
          · cases h
            exact hstage s t
          · split at h
            · cases h
            · obtain ⟨⟨i, s₁⟩, hi, h⟩ := bind_eq_ok_iff.mp h
              obtain ⟨⟨fs, s₂⟩, hfs, hi⟩ := bind_eq_ok_iff.mp hi
              cases hi
              obtain ⟨hgoes, hall⟩ :=
                ForgedProperty.makeAll_goes hR (ih _) (hmade (ih _)) hstays hfs
              exact hR.trans hgoes (hfinish hall h)

/-! ## Classes -/

/-- A session has finished descriptors. Those of implementations have new classes. -/
structure Session.Stages (s s' : Session) : Prop where
  schema : s.schema.Extends s'.schema
  descriptors : ∀ {d : DescriptorId} {x}, s.descriptors[d]? = some x → s'.descriptors[d]? = some x
  staged : ∃ new, s'.staged = s.staged ++ new ∧ ∀ e ∈ new, ∃ x, s'.descriptors[e.2]? = some x ∧
    (x.isSynthesized = true → ∃ c, x.product = .cls c ∧ s.schema.classes.size ≤ c)

namespace Session.Stages

theorem refl (s : Session) : s.Stages s :=
  ⟨.refl _, id, [], (List.append_nil _).symm, fun _ he => nomatch he⟩

theorem trans {s s' s'' : Session} (h : s.Stages s') (h' : s'.Stages s'') : s.Stages s'' := by
  obtain ⟨new, hnew, hspec⟩ := h.staged
  obtain ⟨new', hnew', hspec'⟩ := h'.staged
  refine ⟨h.schema.trans h'.schema, fun hx => h'.descriptors (h.descriptors hx), new ++ new', ?_, ?_⟩
  · rw [hnew', hnew, List.append_assoc]
  · intro e he
    rcases List.mem_append.mp he with he | he
    · obtain ⟨x, hx, hproduct⟩ := hspec e he
      exact ⟨x, h'.descriptors hx, hproduct⟩
    · obtain ⟨x, hx, hproduct⟩ := hspec' e he
      refine ⟨x, hx, fun hs => ?_⟩
      obtain ⟨c, hc, hle⟩ := hproduct hs
      exact ⟨c, hc, h.schema.size_le.trans hle⟩

theorem goes : Session.Goes Session.Stages where
  refl := refl
  trans := trans
  addLookup _ _ := ⟨.refl _, id, [], (List.append_nil _).symm, fun _ he => nomatch he⟩

/-- The descriptor of a class that is not abstract is no implementation's. -/
theorem concrete (s : Session) (t : Ty) (l : Listener) :
    s.Stages (s.stage t (Descriptor.concrete s.schema t l)).2 := by
  refine ⟨.refl _, getElem?_push_of_some, [(t, s.descriptors.size)], rfl, fun e he => ?_⟩
  obtain rfl := List.mem_singleton.mp he
  exact ⟨_, stage_descriptors s t _, fun hs => nomatch hs⟩

/-- The class of an implementation is new. -/
theorem finish {w : Workshop} {i : Implementation} {s s' : Session} {d : DescriptorId}
    (h : i.finish w s = .ok (d, s')) : s.Stages s' := by
  obtain ⟨report, -, hstage⟩ := i.exists_report h
  cases hstage
  refine ⟨Schema.extends_addClass _ _, getElem?_push_of_some, [(i.type, s.descriptors.size)], rfl,
    fun e he => ?_⟩
  obtain rfl := List.mem_singleton.mp he
  exact ⟨_, stage_descriptors (s.addClass (i.decl s.schema)).2 i.type _,
    fun _ => ⟨s.schema.classes.size, rfl, Nat.le_refl _⟩⟩

end Session.Stages

/-- **A search implements each class anew**, unless it is known. -/
theorem Registry.find_stages (r : Registry) (w : Workshop) (n : Nat) (inFlight : List Ty) :
    Request.Goes Session.Stages (r.find w n inFlight) :=
  r.find_goes (P := fun _ _ => True) Session.Stages.goes w (fun s t => .concrete s t w.listener)
    (fun _ _ => trivial) (fun _ _ => trivial) (fun _ h => .finish h) n inFlight

/-- A search only adds to the schema. -/
theorem Registry.find_adds (r : Registry) (w : Workshop) {n : Nat} {inFlight : List Ty} {t : Ty}
    {s s' : Session} {d : DescriptorId} (h : r.find w n inFlight t s = .ok (d, s')) :
    s.schema.Extends s'.schema :=
  (r.find_stages w n inFlight h).schema

end RecordForge
