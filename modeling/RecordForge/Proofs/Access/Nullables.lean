import RecordForge.Proofs.Access.Mappers

/-!
# Nullable wrappers for the values of records

What a nullable wrapper reads as is told by its two slots (`Nullable.content`). Where a member is a
nullable wrapper, a value of a record stands for what is read from it afterwards: null and a wrapper
without a value for null, a wrapper with a value for that value, and anything else for what it is
converted to (`World.StandsFor`). A mapper stores a wrapper that reads as such, and no object that is
there changes meanwhile (`World.StandsFor.wrap`).
-/

namespace RecordForge

open Run

/-- What a nullable wrapper with these two fields reads as. -/
def Nullable.content (value presence : Value) : Value :=
  if presence.bool? == some true then value else .null

theorem Kind.isLiteral_zero (κ : Kind) : κ.zero.isLiteral = true := by
  rw [Kind.zero]
  cases κ.zero? <;> rfl

/-- What a value stands for where a nullable wrapper of a kind is expected. -/
inductive World.StandsFor (w : World) (depth : Nat) (n : ClassId) (κ : Kind) : Value → Value → Prop
  | null : StandsFor w depth n κ .null .null
  /-- A wrapper without a value. -/
  | absent {x : ObjectId} (hx : w.isInstance x (.cls n) = true)
      (ha : getProperty depth x Nullable.absenceName w = (.ok (.ofBool true), w)) :
      StandsFor w depth n κ (.object x) .null
  /-- A wrapper with a value. -/
  | present {x : ObjectId} {r : Value} (hx : w.isInstance x (.cls n) = true)
      (ha : getProperty depth x Nullable.absenceName w = (.ok (.ofBool false), w))
      (hr : getProperty depth x valueName w = (.ok r, w)) : StandsFor w depth n κ (.object x) r
  | converted {v u : Value} (hv : v.isNull = false) (hu : w.schema.convert w.heap v κ = .ok u) :
      StandsFor w depth n κ v u

/-- A nullable wrapper has been prepared that reads as a value. No object that was there has changed. -/
structure World.Prepares (w : World) (n : ClassId) (r : Value) (y : ObjectId) (w' : World) : Prop where
  schema : w'.schema = w.schema
  old : ∀ {o i}, w.heap.object? o = some i → w'.heap.object? o = some i
  fields : ∃ a b, w'.heap.object? y = some ⟨n, true, [a, b]⟩ ∧
    w.heap.Alike w'.heap r (Nullable.content a b)

/-- An object of two fields. -/
theorem Instance.eq_of_shape {i : Instance} {c : ClassId} {byValue : Bool}
    (h : i.shape = ⟨c, byValue, 2⟩) : ∃ a b, i = ⟨c, byValue, [a, b]⟩ := by
  obtain ⟨c', byValue', fields⟩ := i
  obtain rfl : c' = c := congrArg Shape.cls h
  obtain rfl : byValue' = byValue := congrArg Shape.byValue h
  obtain ⟨a, b, rfl⟩ := List.length_eq_two.mp (congrArg Shape.size h)
  exact ⟨a, b, rfl⟩

namespace Schema

variable {s s' : Schema} {t : Ty} {n : ClassId} {type name : String} {κ : Kind} {settable : Bool}

/-- Whether a nullable wrapper holds a value is told by its own slot. -/
theorem getterFor_absence (hn : s.class? n = some (Nullable.decl type κ settable)) :
    s.getterFor (.cls n) Nullable.absenceName = .ok .isAbsent := by
  rw [getterFor, accessor?, lineage_nullable hn]
  rfl

/-- Dispatch on a class that is declared finds the same in every later schema. -/
theorem accessor?_eq {α : Type} {part : PropertyDecl → Option (Accessor α)} (h : s.Extends s')
    (hs : s.Closed) (ht : s.Declares t) : s'.accessor? part t name = s.accessor? part t name := by
  rw [accessor?, accessor?, lineage_eq h hs ht]

theorem getterFor_mono {g : Getter} (h : s.Extends s') (hs : s.Closed) (ht : s.Declares t)
    (hg : s.getterFor t name = .ok g) : s'.getterFor t name = .ok g := by
  rw [getterFor, bodyOf_eq_ok_iff] at hg ⊢
  rw [accessor?_eq h hs ht, hg]

theorem setterFor_mono {g : Setter} (h : s.Extends s') (hs : s.Closed) (ht : s.Declares t)
    (hg : s.setterFor t name = .ok g) : s'.setterFor t name = .ok g := by
  rw [setterFor, bodyOf_eq_ok_iff] at hg ⊢
  rw [accessor?_eq h hs ht, hg]

end Schema

namespace World

variable {w : World} {n : ClassId} {type : String} {κ : Kind} {settable : Bool} {o x : ObjectId}
variable {v r a b : Value} {depth : Nat}

/-! ## Instances -/

/-- The class of an object that is there. -/
theorem classOf_of_known (ho : o < w.heap.objects.size) :
    ∃ i, w.heap.object? o = some i ∧ w.classOf o = .cls i.cls := by
  obtain ⟨i, hi⟩ := Heap.exists_object? ho
  exact ⟨i, hi, classOf_eq hi⟩

/-- An instance has the fields of each class that it is an instance of. -/
theorem Formed.hasSlots (hw : w.Formed) {t : Ty} {k : Nat} (ho : o < w.heap.objects.size)
    (ht : w.isInstance o t = true) (hk : k < (w.schema.fields t).length) : w.HasSlots o (k + 1) := by
  obtain ⟨i, hi, hclass⟩ := classOf_of_known ho
  obtain ⟨d, hd, -, hlength⟩ := hw.heap o i hi
  have hlength : i.fields.length = d.layout.length := hlength
  have hd : w.schema.class? i.cls = some d := hd
  refine ⟨i, hi, ?_⟩
  rw [isInstance, hclass, Schema.isAssignable, Bool.or_eq_true] at ht
  rcases ht with ht | ht
  · rw [← eq_of_beq ht, Schema.fields, show w.schema.decl? (.cls i.cls) = some d from hd] at hk
    exact hlength ▸ hk
  · -- fields of a base come first
    rw [Schema.isSubclass] at ht
    split at ht
    · next he =>
      subst he
      cases hk
    · obtain ⟨c, d', n, hc, hd', rfl, hmem⟩ :=
        Schema.Formed.classes_of_mem_bases (List.contains_iff_mem.mp ht)
      obtain rfl := Ty.cls.inj hc
      obtain rfl := Option.some.inj (hd.symm.trans hd')
      obtain ⟨d'', hd'', -, hprefix, -⟩ := hw.schema.exists_of_mem_bases hd hmem
      rw [Schema.fields, show w.schema.decl? (.cls n) = some d'' from hd''] at hk
      exact hlength ▸ Nat.lt_of_lt_of_le hk hprefix.length_le

/-- A value like a wrapper is a wrapper, and its fields are like those of the wrapper. -/
theorem fields_of_alike {h h' : Heap} (hs : h.Alike h' (.object x) v)
    (hx : h.object? x = some ⟨n, true, [a, b]⟩) : ∃ y a' b', v = .object y ∧
      h'.object? y = some ⟨n, true, [a', b']⟩ ∧ h.Alike h' a a' ∧ h.Alike h' b b' := by
  cases hs with
  | shared hi _ _ hb =>
    obtain rfl := Option.some.inj (hx.symm.trans hi)
    cases hb
  | @copied _ y i j hi hj hshape _ hf =>
    obtain rfl := Option.some.inj (hx.symm.trans hi)
    obtain ⟨a', b', rfl⟩ := Instance.eq_of_shape hshape
    exact ⟨y, a', b', rfl, hj, hf (k := 0) rfl rfl, hf (k := 1) rfl rfl⟩

/-- A copy of a wrapper that is prepared to be stored. -/
theorem assign_wrapper (ht : w.heap.Tidy) (hx : w.heap.object? x = some ⟨n, true, [a, b]⟩)
    (ha : a.isLiteral = true) (hb : b.isLiteral = true) : ∃ y w₁,
      assign (.object x) w = (.ok (.object y), w₁) ∧ w₁.schema = w.schema ∧
        (∀ {o i}, w.heap.object? o = some i → w₁.heap.object? o = some i) ∧
        w₁.heap.object? y = some ⟨n, true, [a, b]⟩ := by
  have hknown : (Value.object x).Known w.heap := Heap.lt_of_object? hx
  obtain ⟨hyields, hsame⟩ := Heap.assign_spec ht hknown
  obtain ⟨y, a', b', hy, hfields, ha', hb'⟩ := fields_of_alike hsame hx
  obtain rfl := ha'.eq_of_isLiteral ha
  obtain rfl := hb'.eq_of_isLiteral hb
  refine ⟨y, { w with heap := (w.heap.assign (.object x)).2 }, ?_, rfl, hyields.old, hfields⟩
  rw [← hy]
  rfl

theorem isPresent_run (hx : w.heap.object? x = some ⟨n, true, [a, b]⟩) :
    isPresent x w = (.ok (b.bool? == some true), w) := by
  have hb : w.heap.field? x Nullable.presenceSlot = some b := Heap.field?_eq_some_iff.mpr ⟨_, hx, rfl⟩
  exact bind_of_ok (check_of_ok (field_eq_ok_iff.mpr hb))

/-! ## What is stored for a value -/

/-- A wrapper is stored as it is. -/
theorem wrap_wrapper (hx : w.isInstance x (.cls n) = true) :
    wrap depth (.nullable κ 0 (.cls n)) (.object x) w = (.ok (.object x), w) := by
  rw [wrap, if_neg (by simp [Value.isNull]), ask_bind, if_pos]
  · rfl
  · exact hx

/-- Anything else is converted, and a new wrapper is made of it. -/
theorem wrap_other (hnull : v.isNull = false)
    (hother : ∀ x, v = .object x → w.isInstance x (.cls n) = false) :
    wrap depth (.nullable κ 0 (.cls n)) v w = (attempt (fun w => w.schema.convert w.heap v κ) >>= fun u =>
      construct depth (.cls n) 0 [u] >>= fun y => pure (.object y)) w := by
  have hother : v.object?.any (w.isInstance · (.cls n)) = false := by
    cases v with
    | object x => exact hother x rfl
    | _ => rfl
  rw [wrap, if_neg (by simp [hnull]), ask_bind, if_neg (by simp [hother])]
  rfl

section
variable (hn : w.schema.class? n = some (Nullable.decl type κ settable))
include hn

/-- A nullable wrapper has two fields, and it is held by value. -/
theorem Formed.fields_nullable (hw : w.Formed) (hx : x < w.heap.objects.size)
    (ht : w.isInstance x (.cls n) = true) : ∃ a b, w.heap.object? x = some ⟨n, true, [a, b]⟩ := by
  obtain ⟨i, hi, hclass⟩ := classOf_of_known hx
  rw [isInstance, hclass] at ht
  obtain rfl := Ty.cls.inj (hw.schema.eq_of_isAssignable hn rfl ht)
  obtain ⟨d, hd, hbyValue, hlength⟩ := hw.heap x i hi
  obtain rfl := Option.some.inj (hn.symm.trans hd)
  have hshape : i.shape = ⟨i.cls, true, 2⟩ := by
    rw [Instance.shape]
    exact congrArg₂ (Shape.mk i.cls) hbyValue hlength
  obtain ⟨a, b, he⟩ := Instance.eq_of_shape hshape
  exact ⟨a, b, hi.trans (congrArg some he)⟩

theorem getProperty_absence (depth : Nat) (hx : w.heap.object? x = some ⟨n, true, [a, b]⟩) :
    getProperty (depth + 1) x Nullable.absenceName w =
      (.ok (.ofBool !(b.bool? == some true)), w) := by
  have hg : w.schema.getterFor (w.classOf x) Nullable.absenceName = .ok .isAbsent := by
    rw [classOf_eq hx]
    exact Schema.getterFor_absence hn
  rw [getProperty_run hg]
  exact bind_of_ok (isPresent_run hx)

theorem getProperty_value (hx : w.heap.object? x = some ⟨n, true, [a, b]⟩)
    (hb : (b.bool? == some true) = true) : getProperty (depth + 1) x valueName w = (.ok a, w) := by
  have hg : w.schema.getterFor (w.classOf x) valueName = .ok (.wrapped type) := by
    rw [classOf_eq hx]
    exact Schema.getterFor_nullable hn
  have ha : w.heap.field? x Nullable.valueSlot = some a := Heap.field?_eq_some_iff.mpr ⟨_, hx, rfl⟩
  rw [getProperty_run hg, Getter.run, bind_of_ok (isPresent_run hx), hb]
  exact check_of_ok (field_eq_ok_iff.mpr ha)

/-- A record sees what a nullable wrapper reads as. -/
theorem unwrap_nullable {r : MemberReader} (habsence : r.hasAbsence = true)
    (hvalue : r.hasValue = true) (hx : w.heap.object? x = some ⟨n, true, [a, b]⟩) :
    unwrap (depth + 1) r (.object x) w = (.ok (Nullable.content a b), w) := by
  have habsent : isAbsent (depth + 1) (.object x) w = (.ok !(b.bool? == some true), w) := by
    refine (bind_of_ok (getProperty_absence hn depth hx)).trans ?_
    cases b.bool? == some true <;> rfl
  rw [unwrap_eq, habsence, hvalue, if_pos rfl, bind_of_ok habsent, Nullable.content]
  cases hb : b.bool? == some true with
  | false => rfl
  | true => exact getProperty_value hn hx hb

/-- A wrapper stands for what it reads as. -/
theorem standsFor_of_fields (hx : w.heap.object? x = some ⟨n, true, [a, b]⟩) :
    w.StandsFor (depth + 1) n κ (.object x) (Nullable.content a b) := by
  have ht : w.isInstance x (.cls n) = true := by
    rw [isInstance, classOf_eq hx, Schema.isAssignable, beq_self_eq_true, Bool.true_or]
  have habsence := getProperty_absence hn depth hx
  rw [Nullable.content]
  cases hb : b.bool? == some true with
  | false =>
    rw [hb] at habsence
    exact .absent ht habsence
  | true =>
    rw [hb] at habsence
    exact .present ht habsence (getProperty_value hn hx hb)

/-- It stands for nothing else. -/
theorem StandsFor.eq_content (h : w.StandsFor (depth + 1) n κ (.object x) r)
    (hx : w.heap.object? x = some ⟨n, true, [a, b]⟩) : r = Nullable.content a b := by
  have habsence := getProperty_absence hn depth hx
  cases h with
  | absent _ ha =>
    rw [Nullable.content]
    cases hb : b.bool? == some true with
    | false => rfl
    | true =>
      rw [hb] at habsence
      cases ha.symm.trans habsence
  | present _ ha hr =>
    rw [Nullable.content]
    cases hb : b.bool? == some true with
    | false =>
      rw [hb] at habsence
      cases ha.symm.trans habsence
    | true =>
      obtain ⟨he, -⟩ := end_inj.mp (hr.symm.trans (getProperty_value hn hx hb))
      exact Except.ok.inj he
  | converted _ hu =>
    rw [Schema.convert_eq_ok_iff] at hu
    cases hu

/-- A value stands for something exactly if it is null, a wrapper, or can be converted. -/
theorem exists_standsFor_iff (depth : Nat) (hw : w.Formed) (hv : v.Known w.heap) :
    (∃ r, w.StandsFor (depth + 1) n κ v r) ↔ v = .null ∨
      (∃ x, v = .object x ∧ w.isInstance x (.cls n) = true) ∨
      ∃ u, w.schema.convert w.heap v κ = .ok u := by
  constructor
  · rintro ⟨r, h⟩
    cases h with
    | null => exact .inl rfl
    | absent hx => exact .inr (.inl ⟨_, rfl, hx⟩)
    | present hx => exact .inr (.inl ⟨_, rfl, hx⟩)
    | converted _ hu => exact .inr (.inr ⟨_, hu⟩)
  · rintro (rfl | ⟨x, rfl, hx⟩ | ⟨u, hu⟩)
    · exact ⟨_, .null⟩
    · obtain ⟨a, b, hfields⟩ := hw.fields_nullable hn hv hx
      exact ⟨_, standsFor_of_fields hn hfields⟩
    · cases hnull : v.isNull with
      | false => exact ⟨u, .converted hnull hu⟩
      | true =>
        cases v with
        | null => exact ⟨_, .null⟩
        | _ => cases hnull

/-! ## Making wrappers -/

theorem static_sentinel : w.schema.static? (.cls n) Nullable.sentinelName =
    some ⟨Nullable.sentinelName, .any, .blank⟩ := by
  rw [Schema.static?, show w.schema.decl? (.cls n) = _ from hn]
  rfl

/-- The static of a nullable wrapper that holds no value gives new wrappers that hold none. -/
theorem getStatic_sentinel (hw : w.Settled) (depth : Nat) : ∃ y w₁,
    getStatic depth (.cls n) Nullable.sentinelName w = (.ok (.object y), w₁) ∧
      w.Prepares n .null y w₁ := by
  have hzero := κ.isLiteral_zero
  have hd := static_sentinel hn
  cases hl : w.statics.lookup (.cls n, Nullable.sentinelName) with
  | some v =>
    obtain ⟨before, after, he, -⟩ := List.lookup_eq_some_iff.mp hl
    obtain ⟨x, rfl, hx⟩ := hw.secluded.blank hn (he ▸ List.mem_append_right before List.mem_cons_self)
    obtain ⟨y, w₁, hassign, hschema, hold, hy⟩ := assign_wrapper hw.tidy.heap hx hzero rfl
    exact ⟨y, w₁, (getStatic_kept hd hl).trans hassign, hschema, hold, _, _, hy, .null⟩
  | none =>
    obtain ⟨x, w₁, hnew⟩ : ∃ x w₁, w.newObject (.cls n) = some (x, w₁) := by
      rw [newObject, hn]
      exact ⟨_, _, rfl⟩
    have hx := newObject_nullable hn hnew
    obtain ⟨heap, rfl, hyields, -⟩ := newObject_yields hw hnew
    obtain ⟨y, w₂, hassign, hschema, hold, hy⟩ := assign_wrapper
      (w := World.keep { w with heap } (.cls n) Nullable.sentinelName (.object x)) hyields.tidy hx
      hzero rfl
    refine ⟨y, w₂, ?_, hschema, fun ho => hold (hyields.old ho), _, _, hy, .null⟩
    have hcompute : computeStatic depth (.cls n) .blank w = (.ok (.object x), { w with heap }) := by
      rw [computeStatic, get_bind, hnew]
      rfl
    rw [getStatic_new hd hl, bind_of_ok hcompute]
    exact hassign

/-- A new wrapper is given a value. -/
theorem construct_nullable (hw : w.Settled) {u : Value}
    (hu : w.schema.cast w.heap u (.scalar κ) = .ok u) (depth : Nat) : ∃ y w₁,
      construct (depth + 1) (.cls n) 0 [u] w = (.ok y, w₁) ∧ w.Prepares n u y w₁ := by
  obtain ⟨y, w₁, hnew⟩ : ∃ y w₁, w.newObject (.cls n) = some (y, w₁) := by
    rw [newObject, hn]
    exact ⟨_, _, rfl⟩
  have hy := newObject_nullable hn hnew
  obtain ⟨heap, rfl, hyields, -⟩ := newObject_yields hw hnew
  have hmem : Value.object y ∈ [Value.object y] := List.mem_singleton.mpr rfl
  have hlater := hyields.new y hmem (Heap.isByValue_object.mpr ⟨_, hy, rfl⟩)
  have hliteral := Schema.isLiteral_of_cast_scalar hu
  have hcast : w.schema.cast heap u (.scalar κ) = .ok u :=
    (Schema.cast_of_grows hyields.grows (.of_isLiteral hliteral)).trans hu
  obtain ⟨heap', hpresent, hwrites, hvalue, hpresence, -⟩ :=
    present_spec (w := { w with heap }) hyields.tidy ⟨_, hy, Nat.le_refl 2⟩ hcast
  have hclass : w.schema.isClass (.cls n) = true := by
    rw [Schema.isClass, show w.schema.decl? (.cls n) = _ from hn]
    rfl
  have habstract : w.schema.isAbstract (.cls n) = false := by
    rw [Schema.isAbstract, show w.schema.decl? (.cls n) = _ from hn]
    rfl
  have hdecl : w.schema.constructorFor (.cls n) 0 1 =
      .ok { params := [.scalar κ], isPublic := true, body := .wrapped κ } := by
    rw [Schema.constructorFor, Schema.constructors, show w.schema.decl? (.cls n) = _ from hn]
    rfl
  refine ⟨y, { w with heap := heap' }, ?_, rfl, fun {o i} ho => ?_, u, .ofBool true, ?_,
    .of_isLiteral hliteral⟩
  · exact constructStep_eq_ok_iff.mpr ⟨hclass, habstract, _, _, hdecl, hnew, hpresent⟩
  · have hne : o ≠ y := by
      rintro rfl
      exact Nat.lt_irrefl o (Nat.lt_of_lt_of_le (Heap.lt_of_object? ho) hlater)
    exact hwrites.others hne (hyields.old ho)
  · obtain ⟨i, hi, hshape⟩ := hwrites.grows.objects hy
    obtain ⟨a, b, rfl⟩ := Instance.eq_of_shape hshape
    obtain ⟨_, hj, ha⟩ := Heap.field?_eq_some_iff.mp hvalue
    obtain rfl := Option.some.inj (hi.symm.trans hj)
    obtain ⟨_, hj, hb⟩ := Heap.field?_eq_some_iff.mp hpresence
    obtain rfl := Option.some.inj (hi.symm.trans hj)
    obtain rfl : a = u := Option.some.inj ha
    obtain rfl : b = .ofBool true := Option.some.inj hb
    exact hi

/-- **What is stored for a value** is a wrapper that reads as what the value stands for. No object that
is there changes. -/
theorem StandsFor.wrap (h : w.StandsFor (depth + 1) n κ v r) (hw : w.Settled) (hv : v.Known w.heap) :
    ∃ y w₁, Run.wrap (depth + 1) (.nullable κ 0 (.cls n)) v w = (.ok (.object y), w₁) ∧
      w.Prepares n r y w₁ := by
  -- a wrapper is stored as it is
  have hkept : ∀ {x}, v = .object x → w.isInstance x (.cls n) = true → ∃ y w₁,
      Run.wrap (depth + 1) (.nullable κ 0 (.cls n)) v w = (.ok (.object y), w₁) ∧
        w.Prepares n r y w₁ := by
    rintro x rfl hx
    obtain ⟨a, b, hfields⟩ := hw.formed.fields_nullable hn hv hx
    obtain rfl := h.eq_content hn hfields
    have hknown : (Nullable.content a b).Known w.heap := by
      rw [Nullable.content]
      split
      · have ha : w.heap.field? x Nullable.valueSlot = some a :=
          Heap.field?_eq_some_iff.mpr ⟨_, hfields, rfl⟩
        exact hw.tidy.heap.known ha
      · exact .of_isLiteral rfl
    exact ⟨x, w, wrap_wrapper hx, rfl, id, a, b, hfields, Heap.alike_of_old hw.tidy.heap id hknown⟩
  cases h with
  | null => exact getStatic_sentinel hn hw (depth + 1)
  | absent hx => exact hkept rfl hx
  | present hx => exact hkept rfl hx
  | converted hnull hu =>
    obtain ⟨y, w₁, hrun, hprepares⟩ := construct_nullable hn hw (Schema.cast_of_convert hu) depth
    refine ⟨y, w₁, ?_, hprepares⟩
    have hother : ∀ x, v ≠ .object x := by
      rintro x rfl
      rw [Schema.convert_eq_ok_iff] at hu
      cases hu
    rw [wrap_other hnull fun x hx => (hother x hx).elim, bind_of_ok (attempt_of_ok hu), bind_of_ok hrun]
    rfl

/-- A value that stands for nothing is refused, since it is not converted, and nothing happens. -/
theorem wrap_refused (hw : w.Settled) (hv : v.Known w.heap)
    (h : ∀ r, ¬w.StandsFor (depth + 1) n κ v r) : ∃ e, w.schema.convert w.heap v κ = .error e ∧
      Run.wrap (depth + 1) (.nullable κ 0 (.cls n)) v w = (.error e, w) := by
  have hnot := mt (exists_standsFor_iff hn depth hw.formed hv).mpr (not_exists.mpr h)
  rw [not_or, not_or] at hnot
  obtain ⟨hnull, hother, hconvert⟩ := hnot
  have hnull : v.isNull = false := by
    cases v with
    | null => cases hnull rfl
    | _ => rfl
  have hother : ∀ x, v = .object x → w.isInstance x (.cls n) = false := fun x hx =>
    Bool.eq_false_iff.mpr fun ht => hother ⟨x, hx, ht⟩
  rw [wrap_other hnull hother, bind_run, attempt_run]
  cases hu : w.schema.convert w.heap v κ with
  | error e => exact ⟨e, rfl, rfl⟩
  | ok u => cases hconvert ⟨u, hu⟩

/-- Whatever comes of it, no object that is there changes. -/
theorem wrap_old (hw : w.Settled) (hv : v.Known w.heap) (depth : Nat) : ∃ r w₁,
    Run.wrap depth (.nullable κ 0 (.cls n)) v w = (r, w₁) ∧ w₁.schema = w.schema ∧
      ∀ {o i}, w.heap.object? o = some i → w₁.heap.object? o = some i := by
  cases depth with
  | succ depth =>
    by_cases h : ∃ r, w.StandsFor (depth + 1) n κ v r
    · obtain ⟨r, h⟩ := h
      obtain ⟨y, w₁, hrun, hprepares⟩ := h.wrap hn hw hv
      exact ⟨_, w₁, hrun, hprepares.schema, hprepares.old⟩
    · obtain ⟨e, -, hrun⟩ := wrap_refused hn hw hv (not_exists.mp h)
      exact ⟨_, w, hrun, rfl, id⟩
  | zero =>
    by_cases hx : ∃ x, v = .object x ∧ w.isInstance x (.cls n) = true
    · obtain ⟨x, rfl, hx⟩ := hx
      exact ⟨_, w, wrap_wrapper hx, rfl, id⟩
    · have hother : ∀ x, v = .object x → w.isInstance x (.cls n) = false := fun x he =>
        Bool.eq_false_iff.mpr fun ht => hx ⟨x, he, ht⟩
      cases hnull : v.isNull with
      | true =>
        cases v with
        | null =>
          obtain ⟨y, w₁, hrun, hprepares⟩ := getStatic_sentinel hn hw 0
          exact ⟨_, w₁, hrun, hprepares.schema, hprepares.old⟩
        | _ => cases hnull
      | false =>
        -- no call may be nested, so no wrapper is made
        rw [wrap_other hnull hother, bind_run, attempt_run]
        cases w.schema.convert w.heap v κ with
        | error e => exact ⟨_, w, rfl, rfl, id⟩
        | ok u => exact ⟨_, w, rfl, rfl, id⟩

end

end World

end RecordForge
