import RecordForge.Proofs.Twin.Runs

/-!
# What single steps do in twin worlds

Whatever a body does in one step, it does in twin worlds alike: a question has one answer in both, or
answers that match, and a change makes twins of twins.

Carriers that stand for each other are used alike. A carrier that is hidden is used by one of the runs
only, or by both, each its own; nobody can tell.
-/

namespace RecordForge

open Run

/-- How entering a constructor ends. -/
theorem TracedCalls.enter_run {t : Ty} {k n : Nat} {w : World} : enter t k n w =
    if (!w.schema.isClass t || w.schema.isAbstract t) = true then
      (.error (.fault (.notInstantiable (w.schema.name t))), w)
    else match w.schema.constructorFor t k n with
      | .error e => (.error (.fault e), w)
      | .ok decl => match w.newObject t with
        | none => (.error (.fault (.notInstantiable (w.schema.name t))), w)
        | some (o, w') => (.ok (o, decl), w') := by
  rw [enter, get_bind]
  split
  · rfl
  · rw [bind_run, ofExcept_run]
    cases w.schema.constructorFor t k n with
    | error e => rfl
    | ok decl =>
      dsimp only
      cases w.newObject t with
      | none => rfl
      | some ow => rfl

namespace Twins

variable {w₀ : World} {α β : Type} {T T' : Twins w₀} {a b : CarrierId} {v u : Value} {vs us : List Value}
variable {f f' : Frame} {o : ObjectId} {k : Nat} {t : Ty}

/-- Two values match. -/
abbrev Match (T : Twins w₀) (v u : Value) : Prop := v.Matches T.paired u

/-- The same in both worlds. -/
abbrev Same (_ : Twins w₀) (a b : α) : Prop := a = b

/-! ## Questions -/

theorem schema_eq (T : Twins w₀) : T.right.schema = T.left.schema :=
  T.rightStays.schema.trans T.leftStays.schema.symm

theorem classOf_eq (T : Twins w₀) (o : ObjectId) : T.right.classOf o = T.left.classOf o := by
  rcases T.objects.object?_cases o with ⟨hi, hj⟩ | ⟨i, j, hi, hj, hmatch⟩
  · rw [World.classOf, World.classOf, Schema.classOf, Schema.classOf, hi, hj]
  · rw [World.classOf, World.classOf, Schema.classOf, Schema.classOf, hi, hj, Option.elim_some,
      Option.elim_some, hmatch.cls]

theorem className_eq (T : Twins w₀) (o : ObjectId) : T.right.className o = T.left.className o := by
  rw [World.className, World.className, T.classOf_eq, T.schema_eq]

theorem badSlot_eq (T : Twins w₀) (o : ObjectId) (k : Nat) :
    T.right.badSlot o k = T.left.badSlot o k := by
  rw [World.badSlot, World.badSlot, T.className_eq]

theorem slotOf_eq (T : Twins w₀) (o : ObjectId) (name : String) :
    T.right.slotOf o name = T.left.slotOf o name := by
  simp only [World.slotOf, T.schema_eq, T.classOf_eq, T.className_eq]

theorem isInstance_eq (T : Twins w₀) (o : ObjectId) (t : Ty) :
    T.right.isInstance o t = T.left.isInstance o t := by
  rw [World.isInstance, World.isInstance, T.schema_eq, T.classOf_eq]

theorem isNull_eq (hv : T.Match v u) : u.isNull = v.isNull := by
  cases hv <;> rfl

theorem typeOf_eq (hv : T.Match v u) :
    Schema.typeOf T.right.heap u = Schema.typeOf T.left.heap v := by
  cases hv with
  | object o => exact T.classOf_eq o
  | null => rfl
  | scalar s => rfl
  | carrier h => rfl

theorem typeName_eq (s : Schema) (hv : T.Match v u) :
    s.typeName T.right.heap u = s.typeName T.left.heap v := by
  have htype := typeOf_eq hv
  cases hv with
  | null => rfl
  | object o => exact congrArg s.name htype
  | scalar s => rfl
  | carrier h => rfl

theorem admits_eq (s : Schema) (t : Ty) (hv : T.Match v u) :
    s.admits T.right.heap t u = s.admits T.left.heap t v := by
  cases hv with
  | object o =>
    have hclass : Schema.classOf T.right.heap o = Schema.classOf T.left.heap o := T.classOf_eq o
    cases t <;> simp only [Schema.admits, Value.object?, Option.any_some, hclass]
  | null => cases t <;> rfl
  | scalar s => cases t <;> rfl
  | carrier h => cases t <;> rfl

/-! ## Frames -/

theorem argument (hf : f.Matches T.paired f') (index : Nat) :
    T.Match (f.argument index) (f'.argument index) := hf.args.getD index

/-- The carriers in an argument. -/
theorem carrier?_cases (hf : f.Matches T.paired f') (index : Nat) :
    f.carrier? index = none ∧ f'.carrier? index = none ∨
      ∃ a b, f.carrier? index = some a ∧ f'.carrier? index = some b ∧ T.paired a b := by
  have hv := argument hf index
  rw [Frame.carrier?, Frame.carrier?]
  generalize f.argument index = v at hv
  generalize f'.argument index = u at hv
  cases hv with
  | carrier h => exact .inr ⟨_, _, rfl, rfl, h⟩
  | null => exact .inl ⟨rfl, rfl⟩
  | scalar s => exact .inl ⟨rfl, rfl⟩
  | object o => exact .inl ⟨rfl, rfl⟩

/-- The parameters of the carriers in an argument. -/
theorem parameters?_rel (hf : f.Matches T.paired f') (index : Nat) :
    Option.Rel (Value.AllMatch T.paired) ((f.carrier? index).bind T.left.heap.parameters?)
      ((f'.carrier? index).bind T.right.heap.parameters?) := by
  rcases carrier?_cases hf index with ⟨ha, hb⟩ | ⟨a, b, ha, hb, hab⟩
  · rw [ha, hb]
    exact .none
  · rw [ha, hb]
    exact T.parameters hab

/-! ## Steps -/

namespace Follows

theorem object (hv : T.Match v u) :
    T.Follows True (.silent (Run.object v)) (.silent (Run.object u)) Same := by
  cases hv with
  | object o => exact pure rfl
  | null => exact fail _
  | scalar s => exact fail _
  | carrier h => exact fail _

theorem thisObject (hf : f.Matches T.paired f') :
    T.Follows True (.silent (Run.thisObject f)) (.silent (Run.thisObject f')) Same := by
  rw [Run.thisObject, Run.thisObject, hf.this]
  cases f.this with
  | none => exact object .null
  | some o => exact object (.object o)

theorem classAtHand (hf : f.Matches T.paired f') :
    T.Follows True (.silent (Run.classAtHand f)) (.silent (Run.classAtHand f')) Same := by
  rw [Run.classAtHand, Run.classAtHand, hf.declaring]
  cases f.declaring with
  | some t => exact pure rfl
  | none =>
    refine silent (thisObject hf) fun T' o o' _ ho => ?_
    subst ho
    exact ask (T'.classOf_eq o).symm

theorem field (T : Twins w₀) (o : ObjectId) (k : Nat) :
    T.Follows True (.silent (Run.check (·.field o k))) (.silent (Run.check (·.field o k))) Match := by
  have hrel := T.objects.field?_rel o k
  refine check ?_
  simp only [World.field]
  cases hv : T.left.heap.field? o k with
  | none =>
    rw [hv] at hrel
    cases hu : T.right.heap.field? o k with
    | none => exact .inl ⟨_, rfl, congrArg Except.error (T.badSlot_eq o k)⟩
    | some u => rw [hu] at hrel; cases hrel
  | some v =>
    rw [hv] at hrel
    cases hu : T.right.heap.field? o k with
    | none => rw [hu] at hrel; cases hrel
    | some u =>
      rw [hu] at hrel
      cases hrel with
      | some h => exact .inr ⟨v, u, rfl, rfl, h⟩

theorem setField (T : Twins w₀) (o : ObjectId) (k : Nat) (hv : T.Match v u) :
    T.Follows True (.silent (Run.change (·.setField o k v)))
      (.silent (Run.change (·.setField o k u))) Same := by
  have hrel := Heap.store_mirrors T.objects o k hv
  refine change ?_
  simp only [World.setField]
  cases hh : T.left.heap.store o k v with
  | none =>
    rw [hh] at hrel
    cases hh' : T.right.heap.store o k u with
    | none => exact .inl ⟨_, rfl, congrArg Except.error (T.badSlot_eq o k)⟩
    | some h' => rw [hh'] at hrel; cases hrel
  | some h =>
    rw [hh] at hrel
    cases hh' : T.right.heap.store o k u with
    | none => rw [hh'] at hrel; cases hrel
    | some h' =>
      rw [hh'] at hrel
      cases hrel with
      | some hm =>
        have hcarriers : ∀ {g g' : Heap} {v}, g.store o k v = some g' → g'.carriers = g.carriers := by
          intro g g' v hg
          obtain ⟨i, -, -, rfl⟩ := Heap.store_eq_some_iff.mp hg
          exact (g.assign_adds v).1.carriers
        exact .inr ⟨T.setObjects h h' hm (hcarriers hh) (hcarriers hh'), rfl, rfl,
          T.leads_setObjects hm _ _, trivial⟩

theorem slotOf (T : Twins w₀) (o : ObjectId) (name : String) :
    T.Follows True (.silent (Run.check (·.slotOf o name))) (.silent (Run.check (·.slotOf o name)))
      Same := check_eq (T.slotOf_eq o name) fun _ _ => rfl

theorem readField (T : Twins w₀) (o : ObjectId) (name : String) :
    T.Follows True (.silent (Run.readField o name)) (.silent (Run.readField o name)) Match := by
  refine silent (slotOf T o name) fun T' k k' _ hk => ?_
  subst hk
  exact field T' o k

theorem writeField (T : Twins w₀) (o : ObjectId) (name : String) (hv : T.Match v u) :
    T.Follows True (.silent (Run.writeField o name v)) (.silent (Run.writeField o name u)) Same := by
  refine silent (slotOf T o name) fun T' k k' hl hk => ?_
  subst hk
  exact setField T' o k (hv.mono hl.paired)

theorem cast (t : Ty) (hv : T.Match v u) :
    T.Follows True (.silent (Run.cast v t)) (.silent (Run.cast u t)) Match := by
  refine check ?_
  simp only [Schema.cast, T.schema_eq, isNull_eq hv, admits_eq _ t hv, typeName_eq _ hv]
  split
  · exact .inr ⟨v, u, rfl, rfl, hv⟩
  · split
    · split
      · exact .inl ⟨_, rfl, rfl⟩
      · exact .inr ⟨v, u, rfl, rfl, hv⟩
    · split
      · exact .inr ⟨v, u, rfl, rfl, hv⟩
      · exact .inl ⟨_, rfl, rfl⟩

/-- Showing a value. -/
theorem display {event : Picture → Event} (hv : T.Match v u)
    (he : ∀ p q, p.Matches T.paired q → (event p).Matches T.paired (event q)) :
    T.Follows True (.silent (Run.display event v)) (.silent (Run.display event u)) Same := by
  have hp : (T.left.picture v).Matches T.paired (T.right.picture u) := by
    simp only [World.picture, Schema.picture, T.schema_eq, T.objects.size]
    exact T.left.schema.pictureTo_matches T.objects _ hv
  exact of_ok rfl rfl (T.leads_observe (he _ _ hp)) rfl

/-- An event that shows no value. -/
theorem observe (T : Twins w₀) {e : Event} (he : ∀ β, e.Matches β e) :
    T.Follows True (.silent (Run.observe e)) (.silent (Run.observe e)) Same :=
  of_ok rfl rfl (T.leads_observe (he _)) rfl

/-- A step that fails a limited number of times. -/
theorem throwTimes (T : Twins w₀) (site count : Nat) (message : String) (c : Calls) :
    T.Follows True (.silent ((Action.throwTimes site count message).perform c f))
      (.silent ((Action.throwTimes site count message).perform c f')) Same := by
  have hspent : T.right.spent.count site = T.left.spent.count site := by rw [T.spent]
  refine silent (ask (Q := Same) hspent.symm) fun T' n n' _ hn => ?_
  subst hn
  split
  · refine silent (of_ok (Q := Same) (U := T'.spend site) rfl rfl (T'.leads_spend site) rfl) ?_
    exact fun _ _ _ _ _ => fail (Q := Same) _
  · exact pure rfl

/-! ### New objects -/

theorem newObject (T : Twins w₀) (t : Ty) :
    T.left.newObject t = none ∧ T.right.newObject t = none ∨
      ∃ o T', T.Leads T' ∧ T.left.newObject t = some (o, T'.left) ∧
        T.right.newObject t = some (o, T'.right) := by
  cases t with
  | cls c =>
    have hclass : T.right.schema.class? c = T.left.schema.class? c := by rw [T.schema_eq]
    simp only [World.newObject, hclass]
    cases T.left.schema.class? c with
    | none => exact .inl ⟨rfl, rfl⟩
    | some d =>
      obtain ⟨ho, hm⟩ := Heap.allocate_mirrors T.objects c d.isValueType
        (d.layout.map FieldDecl.blank)
      have hcarriers : ∀ h : Heap,
          (h.allocate c d.isValueType (d.layout.map FieldDecl.blank)).2.carriers = h.carriers :=
        fun h => (h.allocate_adds trivial fun b _ => b.all_true).1.carriers
      refine .inr ⟨_, T.setObjects _ _ hm (hcarriers _) (hcarriers _), T.leads_setObjects hm _ _, rfl,
        ?_⟩
      rw [Option.map_some, ← ho]
      rfl
  | any => exact .inl ⟨rfl, rfl⟩
  | carrier => exact .inl ⟨rfl, rfl⟩
  | scalar k => exact .inl ⟨rfl, rfl⟩
  | enum e => exact .inl ⟨rfl, rfl⟩

/-- Objects of one class are created in both worlds, by constructors that it has. -/
theorem enter_of_ok (T : Twins w₀) {t : Ty} {k k' n n' : Nat} {decl decl' : ConstructorDecl}
    (hd : T.left.schema.constructorFor t k n = .ok decl)
    (hd' : T.left.schema.constructorFor t k' n' = .ok decl') :
    T.Follows True (.silent (TracedCalls.enter t k n)) (.silent (TracedCalls.enter t k' n'))
      fun _ r r' => r.1 = r'.1 ∧ r.2 = decl ∧ r'.2 = decl' := by
  have hleft := TracedCalls.enter_run (w := T.left) (t := t) (k := k) (n := n)
  have hright := TracedCalls.enter_run (w := T.right) (t := t) (k := k') (n := n')
  rw [T.schema_eq] at hright
  simp only [hd] at hleft
  simp only [hd'] at hright
  by_cases hclass : (!T.left.schema.isClass t || T.left.schema.isAbstract t) = true
  · rw [if_pos hclass] at hleft hright
    exact of_error hleft hright
  · rw [if_neg hclass] at hleft hright
    rcases newObject T t with ⟨hn, hn'⟩ | ⟨o, T', hl, hn, hn'⟩
    · simp only [hn] at hleft
      simp only [hn'] at hright
      exact of_error hleft hright
    · simp only [hn] at hleft
      simp only [hn'] at hright
      exact of_ok hleft hright hl ⟨rfl, rfl, rfl⟩

/-- An object is created in both worlds, or in neither. -/
theorem enter (T : Twins w₀) (t : Ty) (k n : Nat) :
    T.Follows True (.silent (TracedCalls.enter t k n)) (.silent (TracedCalls.enter t k n))
      fun T' r r' => r = r' ∧ T'.left.schema.constructorFor t k n = .ok r.2 := by
  cases hd : T.left.schema.constructorFor t k n with
  | ok decl =>
    refine (enter_of_ok T hd hd).imp fun T' r r' _ hr => ⟨Prod.ext hr.1 (hr.2.1.trans hr.2.2.symm), ?_⟩
    rw [hr.2.1, ← hd, T'.leftStays.schema, T.leftStays.schema]
  | error e =>
    have hleft := TracedCalls.enter_run (w := T.left) (t := t) (k := k) (n := n)
    have hright := TracedCalls.enter_run (w := T.right) (t := t) (k := k) (n := n)
    rw [T.schema_eq] at hright
    simp only [hd] at hleft hright
    by_cases hclass : (!T.left.schema.isClass t || T.left.schema.isAbstract t) = true
    · rw [if_pos hclass] at hleft hright
      exact of_error hleft hright
    · rw [if_neg hclass] at hleft hright
      exact of_error hleft hright

/-! ### Carriers -/

theorem newCarrier (T : Twins w₀) :
    T.Follows True (.silent Run.newCarrier) (.silent Run.newCarrier) fun T' a b => T'.paired a b :=
  of_ok rfl rfl T.leads_newCarriers (.inr ⟨rfl, rfl⟩)

theorem setParameters (hab : T.paired a b) {values values' : Option (List Value)}
    (hv : Option.Rel (Value.AllMatch T.paired) values values') :
    T.Follows True (.silent (Run.setParameters a values)) (.silent (Run.setParameters b values'))
      Same := of_ok rfl rfl (T.leads_setParameters hab hv) rfl

end Follows

/-- A carrier stands for another, or nobody knows either. -/
def Corresponds (T : Twins w₀) (a b : CarrierId) : Prop :=
  T.paired a b ∨ T.HidesLeft a ∧ T.HidesRight b

theorem Corresponds.mono (h : T.Corresponds a b) (hl : T.Leads T') : T'.Corresponds a b :=
  h.imp (hl.paired a b) fun ⟨ha, hb⟩ => ⟨ha.mono hl, hb.mono hl⟩

/-- Two carriers that correspond are given parameters, or lose them. -/
theorem exists_setParameters (hab : T.Corresponds a b) (values : Option (List Value))
    (hv : ∀ vs ∈ values, Value.AllMatch T.paired vs vs) : ∃ T' : Twins w₀, T.Leads T' ∧
      T'.left = { T.left with heap := T.left.heap.setParameters a values } ∧
      T'.right = { T.right with heap := T.right.heap.setParameters b values } := by
  rcases hab with hab | ⟨ha, hb⟩
  · have hrel : Option.Rel (Value.AllMatch T.paired) values values := by
      cases values with
      | none => exact .none
      | some vs => exact .some (hv vs rfl)
    exact ⟨T.setParameters hab hrel, T.leads_setParameters hab hrel, rfl, rfl⟩
  · have hleft := Tweaks.setParameters (k := a) T.leftStays
      (P := fun a => ∃ b, T.paired a b) (fun a' ⟨b', hab'⟩ he => ha.2 b' (he ▸ hab')) values
    have hright := Tweaks.setParameters (k := b) T.rightStays
      (P := fun b => ∃ a, T.paired a b) (fun b' ⟨a', hab'⟩ he => hb.2 a' (he ▸ hab')) values
    exact T.exists_moved hleft hright

namespace Follows

/-- What is done while carriers that correspond hold the parameters of a step. -/
theorem withParameters {x : Run α} {y : Run β} {p q : World → List Performance}
    {Q : Twins w₀ → α → β → Prop} (hab : T.Corresponds a b) {parameters : Option (List Value)}
    (hv : ∀ vs ∈ parameters, Value.AllMatch T.paired vs vs)
    (h : ∀ T', T.Leads T' → T'.Follows True ⟨x, p⟩ ⟨y, q⟩ Q)
    (hQ : ∀ T₁ T₂ r r', T₁.Leads T₂ → Q T₁ r r' → Q T₂ r r') :
    T.Follows True ⟨Run.withParameters a parameters x, fun w => p (w.hold a parameters)⟩
      ⟨Run.withParameters b parameters y, fun w => q (w.hold b parameters)⟩ Q := by
  cases parameters with
  | none => exact h T (.refl T)
  | some vs =>
    intro _
    obtain ⟨T₁, hl₁, hleft, hright⟩ := exists_setParameters hab (some vs) hv
    obtain ⟨T₂, hl₂, hx, hy, hends, hbodies⟩ := h T₁ hl₁ (.inl trivial)
    obtain ⟨T₃, hl₃, hleft', hright'⟩ := exists_setParameters (hab.mono (hl₁.trans hl₂)) none
      fun _ h => nomatch h
    have hholds : T.left.hold a (some vs) = T₁.left := hleft.symm
    have hholds' : T.right.hold b (some vs) = T₁.right := hright.symm
    dsimp only at hx hy hends hbodies ⊢
    rw [withParameters_run, withParameters_run, hholds, hholds', hx, hy]
    exact ⟨T₃, hl₁.trans (hl₂.trans hl₃), hleft'.symm, hright'.symm,
      hends.imp fun _ _ => hQ _ _ _ _ hl₃, hbodies.imp fun _ _ h => h.mono hl₃.paired⟩

/-! ### Lookups -/

/-- A lookup for a published type is answered in both worlds, or is refused in both. -/
theorem resolve (T : Twins w₀) (hw : w₀.Furnished) {l : LookupId} {lookup : Lookup}
    {registry : Registry} {e : DescriptorId} {x : Descriptor}
    (hp : w₀.Published l lookup registry e x) :
    T.Follows True (.silent (Run.resolve l)) (.silent (Run.resolve l))
      fun _ a b => x = a ∧ x = b := by
  rcases hp.resolve hw with hfound | ⟨-, hnone⟩
  · obtain ⟨ls, hleft, hstays⟩ := hfound T.left T.leftStays
    obtain ⟨rs, hright, hstays'⟩ := hfound T.right T.rightStays
    have hl := Tweaks.resolve (P := fun a => ∃ b, T.paired a b) hstays
    have hr := Tweaks.resolve (P := fun b => ∃ a, T.paired a b) hstays'
    obtain ⟨T', hleads, hw, hw'⟩ := T.exists_moved hl hr
    exact of_ok (hw ▸ resolve_eq_ok_iff.mpr hleft) (hw' ▸ resolve_eq_ok_iff.mpr hright) hleads
      ⟨rfl, rfl⟩
  · refine of_error (e := .fault (.thrown "mapping registry has been dropped")) ?_ ?_
    · rw [resolve_run, hnone T.left T.leftStays]
    · rw [resolve_run, hnone T.right T.rightStays]

end Follows

end Twins

end RecordForge
