import RecordForge.Proofs.Access.Places
import RecordForge.Proofs.Scene.Tidy

/-!
# Writing and reading properties of implementations

A write to a stored property succeeds if the value may be stored where the type of the property is
expected; else it changes nothing (`World.Equipped.write`). A write that succeeds changes the slot of
the property, or the wrapper that the slot holds by value, and nothing else (`World.Updates`). As no
other slot holds that wrapper, what is read elsewhere stays as it is (`World.Updates.reads`): whatever
is read without running a body of a user and without coming to the property itself (`World.ReadsPast`).
-/

namespace RecordForge

open Run

/-! ## Instances -/

/-- An object is an instance of an implementation, and a slot through which it reads a property holds a
wrapper if it is a slot for one. -/
structure World.Equipped (w : World) (c : ClassId) (d : ClassDecl) (o : ObjectId) : Prop where
  shape : ∃ i, w.heap.object? o = some i ∧ i.shape = ⟨c, false, d.layout.length⟩
  wrappers : ∀ {name k m type f F bs}, d.Reads name (.through k m type) → d.layout[k]? = some f →
    f.blank = .record F bs → ∃ x i, w.heap.field? o k = some (.object x) ∧
      w.heap.object? x = some i ∧ i.shape = ⟨F, true, bs.length⟩

namespace World

variable {w w' : World} {c : ClassId} {d : ClassDecl} {o a x : ObjectId} {k : Nat} {v u : Value}

theorem classOf_eq {i : Instance} (hi : w.heap.object? o = some i) : w.classOf o = .cls i.cls := by
  rw [classOf, Schema.classOf, hi]
  rfl

/-- The class of an object is part of its shape. -/
theorem classOf_of_shape {i : Instance} {shape : Shape} (hi : w.heap.object? o = some i)
    (hs : i.shape = shape) : w.classOf o = .cls shape.cls :=
  (classOf_eq hi).trans (congrArg (fun s => Ty.cls s.cls) hs)

/-- An object that a value is like is of the same class. -/
theorem classOf_of_alike (h : w.heap.Alike w'.heap v (.object x)) :
    ∃ y, v = .object y ∧ w'.classOf x = w.classOf y := by
  cases h with
  | shared hi hj hs =>
    exact ⟨x, rfl, (classOf_of_shape hj hs).trans (classOf_eq hi).symm⟩
  | copied hi hj hs =>
    exact ⟨_, rfl, (classOf_of_shape hj hs).trans (classOf_eq hi).symm⟩

namespace Equipped

theorem classOf (h : w.Equipped c d o) : w.classOf o = .cls c := by
  obtain ⟨i, hi, hs⟩ := h.shape
  exact classOf_of_shape hi hs

theorem lt_size (h : w.Equipped c d o) : o < w.heap.objects.size := by
  obtain ⟨i, hi, -⟩ := h.shape
  exact Heap.lt_of_object? hi

theorem isByValue (h : w.Equipped c d o) : w.heap.isByValue (.object o) = false := by
  obtain ⟨i, hi, hs⟩ := h.shape
  rw [Heap.isByValue, hi]
  exact congrArg Shape.byValue hs

/-- Where the heap grows and the slots that are read through a member stay as they are, an instance
stays equipped. -/
theorem of_fields (h : w.Equipped c d o) (hg : w.heap.Grows w'.heap)
    (hf : ∀ {name k m type}, d.Reads name (.through k m type) →
      w'.heap.field? o k = w.heap.field? o k) : w'.Equipped c d o where
  shape := by
    obtain ⟨i, hi, hs⟩ := h.shape
    obtain ⟨i', hi', hs'⟩ := hg.objects hi
    exact ⟨i', hi', hs'.trans hs⟩
  wrappers {name k m type f F bs} hr hl hb := by
    obtain ⟨x, i, hx, hi, hs⟩ := h.wrappers hr hl hb
    obtain ⟨i', hi', hs'⟩ := hg.objects hi
    exact ⟨x, i', (hf hr).trans hx, hi', hs'.trans hs⟩

/-- An instance stays equipped when a value is stored, unless it is stored into a slot for a wrapper
through which the instance reads a property. -/
theorem store (h : w.Equipped c d o) (ht : w.heap.Tidy) (hv : v.Known w.heap)
    (hs : w.setField a k v = .ok w')
    (hslot : a = o → ∀ {name m type}, d.Reads name (.through k m type) →
      ∃ f, d.layout[k]? = some f ∧ f.blank = .null) :
    w'.Equipped c d o := by
  obtain ⟨heap, hstore, rfl⟩ := setField_eq_ok_iff.mp hs
  obtain ⟨hw, u, hu, hsame⟩ := Heap.store_spec ht hv hstore
  by_cases ha : a = o
  · subst ha
    have hfield : ∀ {k'}, k' ≠ k → heap.field? a k' = w.heap.field? a k' := fun hne => hw.slots hne
    refine ⟨?_, fun {name k' m type f F bs} hr hl hb => ?_⟩
    · obtain ⟨i, hi, hs⟩ := h.shape
      obtain ⟨i', hi', hs'⟩ := hw.grows.objects hi
      exact ⟨i', hi', hs'.trans hs⟩
    · by_cases hk : k' = k
      · subst hk
        obtain ⟨f', hl', hb'⟩ := hslot rfl hr
        obtain rfl := Option.some.inj (hl.symm.trans hl')
        rw [hb] at hb'
        cases hb'
      · obtain ⟨x, i, hx, hi, hs⟩ := h.wrappers hr hl hb
        obtain ⟨i', hi', hs'⟩ := hw.grows.objects hi
        exact ⟨x, i', (hfield hk).trans hx, hi', hs'.trans hs⟩
  · exact h.of_fields hw.grows fun _ => hw.field?_eq h.lt_size fun he => (ha he.symm).elim

end Equipped

/-! ## Writes -/

/-- A write to what an instance keeps in a slot: it has changed the slot, or the wrapper that the slot
holds by value. -/
structure Updates (w : World) (o : ObjectId) (k : Nat) (w' : World) : Prop where
  rest : w' = { w with heap := w'.heap }
  change : ∃ a P, w.heap.Overwrites w'.heap a P ∧ ((a = o ∧ ∀ j, P j → j = k) ∨
    w.heap.field? o k = some (.object a) ∧ w.heap.isByValue (.object a) = true)

/-- Storing a value into a slot of an object that has it. -/
theorem setField_spec (ht : w.heap.Tidy) (ho : w.HasSlots o (k + 1)) (hv : v.Known w.heap) :
    ∃ heap u, w.setField o k v = .ok { w with heap } ∧ w.heap.Overwrites heap o (· = k) ∧
      heap.field? o k = some u ∧ w.heap.Alike heap v u := by
  obtain ⟨i, hi, hk⟩ := ho
  have hstore : w.heap.store o k v = some ((w.heap.assign v).2.put o k (w.heap.assign v).1) :=
    Heap.store_eq_some_iff.mpr ⟨i, hi, hk, rfl⟩
  obtain ⟨hw, u, hu, hsame⟩ := Heap.store_spec ht hv hstore
  exact ⟨_, u, setField_eq_ok_iff.mpr ⟨_, hstore, rfl⟩, hw, hu, hsame⟩

/-- A property is written by the body that dispatch finds. -/
theorem setProperty_run {name : String} {g : Setter} {depth : Nat}
    (hg : w.schema.setterFor (w.classOf o) name = .ok g) :
    setProperty (depth + 1) o name v w = g.run (Calls.nested depth) o v w :=
  bind_of_ok (check_of_ok hg)

/-- A property is read by the body that dispatch finds. -/
theorem getProperty_run {name : String} {g : Getter} {depth : Nat}
    (hg : w.schema.getterFor (w.classOf o) name = .ok g) :
    getProperty (depth + 1) o name w = g.run (Calls.nested depth) o w :=
  bind_of_ok (check_of_ok hg)

/-- A slot that an instance has. -/
theorem Equipped.hasSlots (h : w.Equipped c d o) (hk : k < d.layout.length) : w.HasSlots o (k + 1) := by
  obtain ⟨i, hi, hs⟩ := h.shape
  have hlength : i.fields.length = d.layout.length := congrArg Shape.size hs
  exact ⟨i, hi, hlength ▸ hk⟩

/-- Giving a wrapper that is there a value that it accepts. -/
theorem present_spec {κ : Kind} (ht : w.heap.Tidy) (hx : w.HasSlots x 2)
    (hv : w.schema.cast w.heap v (.scalar κ) = .ok v) :
    ∃ heap, present κ x v w = (.ok (), { w with heap }) ∧
      w.heap.Overwrites heap x (fun j => j = Nullable.valueSlot ∨ j = Nullable.presenceSlot) ∧
      heap.field? x Nullable.valueSlot = some v ∧
      heap.field? x Nullable.presenceSlot = some (.ofBool true) ∧
      ∀ {c d o}, x ≠ o → w.Equipped c d o → Equipped { w with heap } c d o := by
  have hliteral := Schema.isLiteral_of_cast_scalar hv
  obtain ⟨h₁, u, hs₁, hw₁, hu, hsame⟩ :=
    setField_spec ht (hx.le (by decide : Nullable.valueSlot + 1 ≤ 2)) (v := v) (.of_isLiteral hliteral)
  obtain rfl := hsame.eq_of_isLiteral hliteral
  have hx₁ : World.HasSlots { w with heap := h₁ } x (Nullable.presenceSlot + 1) :=
    (hx.mono hw₁.grows).le (by decide)
  obtain ⟨h₂, b, hs₂, hw₂, hb, hsame₂⟩ :=
    setField_spec (w := { w with heap := h₁ }) hw₁.tidy hx₁ (v := .ofBool true) trivial
  obtain rfl := hsame₂.eq_of_isLiteral rfl
  refine ⟨h₂, ?_, hw₁.trans hw₂, ?_, hb, fun hne he => ?_⟩
  · rw [present, Run.cast, bind_of_ok (check_of_ok hv), bind_of_ok (change_of_ok hs₁)]
    exact change_of_ok hs₂
  · exact (hw₂.slots (by decide)).trans hu
  · have he₁ := he.store ht (.of_isLiteral hliteral) hs₁ fun h => (hne h).elim
    exact he₁.store hw₁.tidy (v := .ofBool true) trivial hs₂ fun h => (hne h).elim

/-- What a write that succeeds has done: nothing but what is kept in the slot has changed, all
instances are equipped as they were, and the property reads as the value that was written. -/
structure Written (w : World) (c : ClassId) (d : ClassDecl) (o : ObjectId) (k : Nat) (name : String)
    (v : Value) (w' : World) : Prop where
  updates : w.Updates o k w'
  equipped : ∀ {o'}, w.Equipped c d o' → w'.Equipped c d o'
  reads : ∃ u, (∀ depth, getProperty (depth + 2) o name w' = (.ok u, w')) ∧ w.heap.Alike w'.heap v u

variable {name : String} {t : Ty}

/-- A write to the slot of a property. -/
theorem Equipped.write_slot (h : w.Equipped c d o) (hk : d.Keeps w.schema) (ht : w.heap.Tidy)
    (hlt : k < d.layout.length) (hread : d.Reads name (.slot k))
    (hget : w.schema.getterFor (w.classOf o) name = .ok (.slot k)) (hv : v.Known w.heap)
    (hu : w.schema.cast w.heap v t = .ok v) :
    ∃ w', (∀ calls, (Setter.slotOf k t).run calls o v w = (.ok (), w')) ∧
      w.Written c d o k name v w' := by
  obtain ⟨heap, u, hs, hw, hheld, hsame⟩ := setField_spec ht (h.hasSlots hlt) hv
  refine ⟨{ w with heap }, fun calls => ?_, ⟨rfl, o, (· = k), hw, .inl ⟨rfl, fun _ hj => hj⟩⟩,
    fun {o'} ho' => ?_, u, fun depth => ?_, hsame⟩
  · rw [Setter.run, Run.cast, bind_of_ok (check_of_ok hu)]
    exact change_of_ok hs
  · refine ho'.store ht hv hs fun _ {name m type} hr => ?_
    cases (hk.apart hread hr rfl rfl).2
  · have hclass : World.classOf { w with heap } o = w.classOf o := hw.grows.classOf_eq h.lt_size
    rw [← hclass] at hget
    rw [getProperty_run hget, Getter.run]
    exact check_of_ok (field_eq_ok_iff.mpr hheld)

/-- What is read from a property that is kept in a nullable wrapper with a value. -/
theorem getProperty_wrapper {F : ClassId} {κ : Kind} {type : String} {depth : Nat}
    (hF : w.schema.class? F = some (Nullable.decl type κ true)) (hx : w.classOf x = .cls F)
    (hget : w.schema.getterFor (w.classOf o) name =
      .ok (.through k (Nullable.member κ true) none))
    (hheld : w.heap.field? o k = some (.object x))
    (hpresence : w.heap.field? x Nullable.presenceSlot = some (.ofBool true))
    (hvalue : w.heap.field? x Nullable.valueSlot = some u) :
    getProperty (depth + 2) o name w = (.ok u, w) := by
  have hgetx : w.schema.getterFor (w.classOf x) valueName = .ok (.wrapped type) := by
    rw [hx]
    exact Schema.getterFor_nullable hF
  rw [getProperty_run hget, Getter.run, bind_of_ok (check_of_ok (field_eq_ok_iff.mpr hheld))]
  show (getProperty (depth + 1) x valueName >>= fun v => pure v) w = _
  rw [bind_pure, getProperty_run hgetx, Getter.run, isPresent, bind_assoc,
    bind_of_ok (check_of_ok (field_eq_ok_iff.mpr hpresence)), pure_bind]
  exact check_of_ok (field_eq_ok_iff.mpr hvalue)

/-- A write to the wrapper in the slot of a property. -/
theorem Equipped.write_wrapper (h : w.Equipped c d o) (ht : w.heap.Tidy) {F : ClassId}
    {type : String} {κ : Kind} {f : FieldDecl}
    (hF : w.schema.class? F = some (Nullable.decl type κ true))
    (htype : t = .scalar κ ∨ w.schema.underlying? t = some κ) (hlayout : d.layout[k]? = some f)
    (hblank : f.blank = .record F ((Nullable.decl type κ true).layout.map FieldDecl.blank))
    (hread : d.Reads name (.through k (Nullable.member κ true) none))
    (hget : w.schema.getterFor (w.classOf o) name =
      .ok (.through k (Nullable.member κ true) none))
    (hu : w.schema.cast w.heap v t = .ok v) :
    ∃ w', (∀ depth, (Setter.through k (Nullable.member κ true) t).run (Calls.nested (depth + 1))
        o v w = (.ok (), w')) ∧ w.Written c d o k name v w' := by
  obtain ⟨x, i, hx, hi, hs⟩ := h.wrappers hread hlayout hblank
  have hxlt : x < w.heap.objects.size := Heap.lt_of_object? hi
  have hcls : w.classOf x = .cls F := classOf_of_shape hi hs
  have hbyValue : w.heap.isByValue (.object x) = true :=
    Heap.isByValue_object.mpr ⟨i, hi, congrArg Shape.byValue hs⟩
  -- the wrapper is held by value, so it is no instance
  have hne : ∀ {o'}, w.Equipped c d o' → x ≠ o' := by
    rintro o' ho' rfl
    rw [ho'.isByValue] at hbyValue
    cases hbyValue
  have hslots : w.HasSlots x 2 := ⟨i, hi, Nat.le_of_eq (congrArg Shape.size hs).symm⟩
  have hscalar := Schema.cast_scalar htype hu
  obtain ⟨heap, hpresent, hw, hvalue, hpresence, hequipped⟩ := present_spec ht hslots hscalar
  have hclass : ∀ {a}, a < w.heap.objects.size → World.classOf { w with heap } a = w.classOf a :=
    fun ha => hw.grows.classOf_eq ha
  refine ⟨{ w with heap }, fun depth => ?_, ⟨rfl, x, _, hw, .inr ⟨hx, hbyValue⟩⟩,
    fun {o'} ho' => hequipped (hne ho') ho', v, fun depth => ?_, ?_⟩
  · have hset : w.schema.setterFor (w.classOf x) valueName = .ok (.wrapped κ) :=
      hcls ▸ Schema.setterFor_nullable hF
    rw [Setter.run, Run.cast, bind_of_ok (check_of_ok hu),
      bind_of_ok (check_of_ok (field_eq_ok_iff.mpr hx))]
    show setProperty (depth + 1) x valueName v w = _
    rw [setProperty_run hset]
    exact hpresent
  · have hheld : heap.field? o k = some (.object x) :=
      (hw.field?_eq h.lt_size fun he => (hne h he.symm).elim).trans hx
    rw [← hclass h.lt_size] at hget
    exact getProperty_wrapper (w := { w with heap }) hF ((hclass hxlt).trans hcls) hget hheld
      hpresence hvalue
  · exact .of_isLiteral (Schema.isLiteral_of_cast_scalar hscalar)

variable {p : PropertyDecl}

/-- **A write to a stored property** succeeds exactly if the value may be stored where the type of the
property is expected. -/
theorem Equipped.write (h : w.Equipped c d o) (hk : d.Keeps w.schema) (ht : w.heap.Tidy)
    (hp : w.schema.Accesses d (.cls c) p k) (hv : v.Known w.heap) :
    (∀ e, w.schema.cast w.heap v p.type = .error e →
      ∀ depth, setProperty (depth + 2) o p.name v w = (.error (.fault e), w)) ∧
    ∀ u, w.schema.cast w.heap v p.type = .ok u →
      ∃ w', (∀ depth, setProperty (depth + 2) o p.name v w = (.ok (), w')) ∧
        w.Written c d o k p.name v w' := by
  have hclass := h.classOf
  cases hp with
  | direct hlt hread hget hset =>
    rw [← hclass] at hget hset
    refine ⟨fun e he depth => ?_, fun u hu => ?_⟩
    · rw [setProperty_run hset, Setter.run, Run.cast, bind_run, check_run, he]
    · obtain rfl := Schema.eq_of_cast hu
      obtain ⟨w', hrun, hwritten⟩ := h.write_slot hk ht hlt hread hget hv hu
      exact ⟨w', fun depth => (setProperty_run hset).trans (hrun _), hwritten⟩
  | wrapped hF htype hlayout hblank hread hget hset =>
    rw [← hclass] at hget hset
    refine ⟨fun e he depth => ?_, fun u hu => ?_⟩
    · rw [setProperty_run hset, Setter.run, Run.cast, bind_run, check_run, he]
    · obtain rfl := Schema.eq_of_cast hu
      obtain ⟨w', hrun, hwritten⟩ := h.write_wrapper ht hF htype hlayout hblank hread hget hu
      exact ⟨w', fun depth => (setProperty_run hset).trans (hrun depth), hwritten⟩

end World

/-! ## Reads -/

/-- A getter reads the fields of its own object, and runs no body of a user. -/
def Getter.isOwn : Getter → Bool
  | .slot _ | .isAbsent | .wrapped _ => true
  | .routine _ | .through .. => false

/-- The fields of its object that a getter reads itself. -/
def Getter.fields : Getter → List Nat
  | .slot k | .through k .. => [k]
  | .isAbsent => [Nullable.presenceSlot]
  | .wrapped _ => [Nullable.presenceSlot, Nullable.valueSlot]
  | .routine _ => []

/-- A slot in which instances keep something else than a property: a field of the class that is
implemented, or another property. -/
def ClassDecl.KeepsElse (d : ClassDecl) (name : String) (k : Nat) : Prop :=
  k < d.ownStart ∨ ∃ other g, other ≠ name ∧ d.Reads other g ∧ g.slot? = some k

theorem ClassDecl.KeepsElse.ne {s : Schema} {d : ClassDecl} {name : String} {g : Getter}
    {j k : Nat} (h : d.KeepsElse name j) (hd : d.Keeps s) (hr : d.Reads name g)
    (hk : g.slot? = some k) : j ≠ k := by
  rintro rfl
  rcases h with hlt | ⟨other, g', hne, hr', hj⟩
  · exact Nat.not_le_of_lt hlt (hd.own hr hk)
  · exact hne (hd.apart hr' hr hj hk).1

/-- Reading a property of an object runs no body of a user, and does not come to the property `written`
of the instance `o`: it reads fields of the object, or goes on, through an object that a field holds, to
a member of that one. -/
inductive World.ReadsPast (w : World) (d : ClassDecl) (o : ObjectId) (written : String) :
    ObjectId → String → Prop
  | own {x : ObjectId} {name : String}
      (h : ∀ g, w.schema.getterFor (w.classOf x) name = .ok g →
        g.isOwn = true ∧ ∀ k ∈ g.fields, x = o → d.KeepsElse written k) :
      ReadsPast w d o written x name
  | through {x : ObjectId} {name : String} {k : Nat} {m : ValueMember} {type : Option Ty}
      (hg : w.schema.getterFor (w.classOf x) name = .ok (.through k m type))
      (hk : x = o → d.KeepsElse written k)
      (hfield : ∀ z j, w.heap.field? x k = some (.object z) → m.place = .field j → z = o →
        d.KeepsElse written j)
      (hnext : ∀ z readable writable, w.heap.field? x k = some (.object z) →
        m.place = .property readable writable → ReadsPast w d o written z m.name) :
      ReadsPast w d o written x name

namespace World

variable {w w' : World} {c : ClassId} {d : ClassDecl} {o x : ObjectId} {k : Nat} {name : String}

/-- A run gives the same in two worlds, and leaves both as they are. What it gives is one of some
values. -/
def Agree (w w' : World) (x : Run Value) (among : Value → Prop) : Prop :=
  ∃ r, x w = (r, w) ∧ x w' = (r, w') ∧ ∀ u, r = .ok u → among u

theorem Agree.imp {y : Run Value} {P Q : Value → Prop} (h : Agree w w' y P) (hQ : ∀ u, P u → Q u) :
    Agree w w' y Q := by
  obtain ⟨r, hr, hr', hu⟩ := h
  exact ⟨r, hr, hr', fun u he => hQ u (hu u he)⟩

theorem Agree.halt {e : Halt} {P : Value → Prop} : Agree w w' (Run.halt e) P :=
  ⟨.error e, rfl, rfl, fun _ he => nomatch he⟩

theorem Agree.pure {u : Value} {P : Value → Prop} (hu : P u) : Agree w w' (Pure.pure u) P :=
  ⟨.ok u, rfl, rfl, fun _ he => Except.ok.inj he ▸ hu⟩

theorem Agree.bind {y : Run Value} {f : Value → Run Value} {P Q : Value → Prop}
    (h : Agree w w' y P) (hf : ∀ u, P u → Agree w w' (f u) Q) : Agree w w' (y >>= f) Q := by
  obtain ⟨r, hr, hr', hu⟩ := h
  cases r with
  | error e => exact ⟨.error e, bind_of_error hr, bind_of_error hr', fun _ he => nomatch he⟩
  | ok u =>
    obtain ⟨r', hs, hs', hu'⟩ := hf u (hu u rfl)
    exact ⟨r', (bind_of_ok hr).trans hs, (bind_of_ok hr').trans hs', hu'⟩

theorem Agree.check {q : World → Except Fault Value} {P : Value → Prop} (hq : q w' = q w)
    (hP : ∀ u, q w = .ok u → P u) : Agree w w' (Run.check q) P := by
  cases h : q w with
  | error e =>
    refine ⟨.error (.fault e), ?_, ?_, fun _ he => nomatch he⟩
    · rw [check_run, h]
    · rw [check_run, hq, h]
  | ok u =>
    exact ⟨.ok u, check_of_ok h, check_of_ok (hq.trans h), fun _ he => Except.ok.inj he ▸ hP u h⟩

section
variable (hs : w'.schema = w.schema) (hg : w.heap.Grows w'.heap)
include hs hg

/-- Reading a slot that is as it was. -/
theorem Agree.field (hx : x < w.heap.objects.size) {j : Nat}
    (hf : w'.heap.field? x j = w.heap.field? x j) :
    Agree w w' (Run.check (·.field x j)) fun u => w.heap.field? x j = some u := by
  refine .check ?_ fun u hu => field_eq_ok_iff.mp hu
  have hclass : w'.classOf x = w.classOf x := hg.classOf_eq hx
  simp only [World.field, hf, badSlot, className, hclass, hs]

/-- Reading an object by its own fields, if these are as they were. -/
theorem Agree.own {g : Getter} {c : Calls} (ho : g.isOwn = true) (hx : x < w.heap.objects.size)
    (hf : ∀ j ∈ g.fields, w'.heap.field? x j = w.heap.field? x j) :
    Agree w w' (g.run c x)
      fun u => u.isLiteral = true ∨ ∃ j ∈ g.fields, w.heap.field? x j = some u := by
  have hfield : ∀ j ∈ g.fields, Agree w w' (Run.check (·.field x j))
      fun u => u.isLiteral = true ∨ ∃ j ∈ g.fields, w.heap.field? x j = some u := fun j hj =>
    (Agree.field hs hg hx (hf j hj)).imp fun u hu => .inr ⟨j, hj, hu⟩
  cases g with
  | slot j => exact hfield j (.head _)
  | isAbsent =>
    have habsent : ∀ w, Getter.run c x .isAbsent w = (Run.check (·.field x Nullable.presenceSlot) >>=
        fun v => Pure.pure (.ofBool !(v.bool? == some true)) : Run Value) w := fun w => by
      rw [Getter.run, isPresent, bind_assoc]
      rfl
    obtain ⟨r, hr, hr', hu⟩ := (hfield Nullable.presenceSlot (.head _)).bind
      (Q := fun u => u.isLiteral = true ∨ ∃ j ∈ [Nullable.presenceSlot], w.heap.field? x j = some u)
      fun v _ => Agree.pure (u := .ofBool !(v.bool? == some true)) (.inl rfl)
    exact ⟨r, (habsent w).trans hr, (habsent w').trans hr', hu⟩
  | wrapped type =>
    have hwrapped : ∀ w, Getter.run c x (.wrapped type) w =
        (Run.check (·.field x Nullable.presenceSlot) >>= fun v =>
          if v.bool? == some true then Run.check (·.field x Nullable.valueSlot)
          else fail (.nullValue type) : Run Value) w := fun w => by
      rw [Getter.run, isPresent, bind_assoc]
      rfl
    obtain ⟨r, hr, hr', hu⟩ := (hfield Nullable.presenceSlot (.head _)).bind
      (f := fun v => if v.bool? == some true then Run.check (·.field x Nullable.valueSlot)
        else fail (.nullValue type)) fun v _ => by
        split
        · exact hfield Nullable.valueSlot (.tail _ (.head _))
        · exact .halt
    exact ⟨r, (hwrapped w).trans hr, (hwrapped w').trans hr', hu⟩
  | routine body => cases ho
  | through j m type => cases ho

/-- Reading a property by the body that dispatch finds. -/
theorem Agree.property {P : Value → Prop} (hx : x < w.heap.objects.size)
    (h : ∀ g n, w.schema.getterFor (w.classOf x) name = .ok g →
      Agree w w' (g.run (Calls.nested n) x) P) (depth : Nat) :
    Agree w w' (getProperty depth x name) P := by
  have hclass : w'.classOf x = w.classOf x := hg.classOf_eq hx
  cases depth with
  | zero => exact .halt
  | succ n =>
    cases hget : w.schema.getterFor (w.classOf x) name with
    | error e =>
      refine ⟨.error (.fault e), ?_, ?_, fun _ he => nomatch he⟩
      · exact bind_of_error (by rw [check_run, hget])
      · exact bind_of_error (by rw [check_run, hclass, hs, hget])
    | ok g =>
      obtain ⟨r, hr, hr', hu⟩ := h g n hget
      have hget' : w'.schema.getterFor (w'.classOf x) name = .ok g := by rw [hclass, hs, hget]
      exact ⟨r, (getProperty_run hget).trans hr, (getProperty_run hget').trans hr', hu⟩

end

/-! ### After a write -/

namespace Updates

variable {b x z : ObjectId} {j : Nat} {u : Value}

theorem schema_eq (hu : w.Updates o k w') : w'.schema = w.schema := by rw [hu.rest]

theorem grows (hu : w.Updates o k w') : w.heap.Grows w'.heap := by
  obtain ⟨a, P, hw, -⟩ := hu.change
  exact hw.grows

/-- Instances are as they were, up to the slot that is written: what has changed is no other
instance. -/
theorem field?_eq (hu : w.Updates o k w') (hx : w.Equipped c d x) (hj : x = o → j ≠ k) :
    w'.heap.field? x j = w.heap.field? x j := by
  obtain ⟨a, P, hw, hchange⟩ := hu.change
  refine hw.field?_eq hx.lt_size fun he hP => ?_
  rcases hchange with ⟨rfl, hk⟩ | ⟨-, hb⟩
  · exact hj he (hk j hP)
  · rw [← he, hx.isByValue] at hb
    cases hb

/-- What is held in another slot keeps its contents: in a tidy heap no other slot holds what has
changed by value. -/
theorem alike (hu : w.Updates o k w') (ht : w.heap.Tidy) (ho : w.Equipped c d o)
    (hf : w.heap.field? b j = some u) (hne : b = o → j ≠ k) : w.heap.Alike w'.heap u u := by
  obtain ⟨a, P, hw, hchange⟩ := hu.change
  have hheld : ∀ {b j}, w.heap.field? b j = some (.object a) →
      w.heap.isByValue (.object a) = true → b = o ∧ j = k := by
    intro b j hf hb
    rcases hchange with ⟨rfl, -⟩ | ⟨hk, -⟩
    · rw [ho.isByValue] at hb
      cases hb
    · exact ht.separate hf hk hb
  refine hw.alike ht (ht.known hf) (fun hf hb => (hheld hf hb).1 ▸ ho.isByValue) ?_
  rintro rfl
  refine Bool.eq_false_iff.mpr fun hb => ?_
  obtain ⟨hb, hj⟩ := hheld hf hb
  exact hne hb hj

/-- An object in another slot has its fields as they were, up to the slot that is written. -/
theorem fields_eq (hu : w.Updates o k w') (ht : w.heap.Tidy)
    (hz : w.heap.field? x j = some (.object z)) (hne : x = o → j ≠ k) {i : Nat} (hi : z = o → i ≠ k) :
    w'.heap.field? z i = w.heap.field? z i := by
  obtain ⟨a, P, hw, hchange⟩ := hu.change
  refine hw.field?_eq (ht.known hz) fun he hP => ?_
  subst he
  rcases hchange with ⟨ho, hk⟩ | ⟨hheld, hb⟩
  · exact hi ho (hk i hP)
  · obtain ⟨hx, hj⟩ := ht.separate hz hheld hb
    exact hne hx hj

/-- What is read through an object that a slot holds, if the slot is as it was and the member reads as
before. -/
theorem through (hu : w.Updates o k w') {calls : Calls} {m : ValueMember} {type : Option Ty}
    (hslot : Agree w w' (Run.check (·.field x j)) fun u => w.heap.field? x j = some u)
    (hread : ∀ z, w.heap.field? x j = some (.object z) → Agree w w' (m.read calls (.object z))
      fun u => u.Known w.heap ∧ w.heap.Alike w'.heap u u) :
    Agree w w' ((Getter.through j m type).run calls x)
      fun u => u.Known w.heap ∧ w.heap.Alike w'.heap u u := by
  refine hslot.bind fun v hv => ?_
  have hmember : Agree w w' (m.read calls v) fun u => u.Known w.heap ∧ w.heap.Alike w'.heap u u := by
    cases v with
    | object z => exact hread z hv
    | null => exact .halt
    | scalar s => exact .halt
    | carrier k => exact .halt
  refine hmember.bind fun u hknown => ?_
  cases type with
  | none => exact .pure hknown
  | some t =>
    refine .check ?_ fun u' hu' => ?_
    · rw [hu.schema_eq, Schema.cast_of_grows hu.grows hknown.1]
    · rw [Schema.eq_of_cast hu']
      exact hknown

/-- **What a write leaves as it is.** A property that is read without a body of a user, and without
coming to the one that is written, reads as before, with the same contents. -/
theorem reads {s : Schema} {written : String} {g : Getter} (hu : w.Updates o k w') (ht : w.heap.Tidy)
    (ho : w.Equipped c d o) (hd : d.Keeps s) (hr : d.Reads written g) (hk : g.slot? = some k)
    (h : w.ReadsPast d o written x name) (hx : x < w.heap.objects.size)
    (hf : ∀ j, (x = o → j ≠ k) → w'.heap.field? x j = w.heap.field? x j) :
    ∀ depth, Agree w w' (getProperty depth x name)
      fun u => u.Known w.heap ∧ w.heap.Alike w'.heap u u := by
  -- the induction goes along the objects through which the property is read
  induction h with
  | @own x name hown =>
    refine .property hu.schema_eq hu.grows hx fun g' n hget => ?_
    obtain ⟨hg, hfields⟩ := hown g' hget
    have hne : ∀ j ∈ g'.fields, x = o → j ≠ k := fun j hj he => (hfields j hj he).ne hd hr hk
    refine (Agree.own hu.schema_eq hu.grows hg hx fun j hj => hf j (hne j hj)).imp fun u hread => ?_
    rcases hread with hliteral | ⟨j, hj, hheld⟩
    · exact ⟨.of_isLiteral hliteral, .of_isLiteral hliteral⟩
    · exact ⟨ht.known hheld, hu.alike ht ho hheld (hne j hj)⟩
  | @through x name j m type hget hkeeps hfield _ ih =>
    refine .property hu.schema_eq hu.grows hx fun g' n hget' => ?_
    obtain rfl := Except.ok.inj (hget.symm.trans hget')
    have hne : x = o → j ≠ k := fun he => (hkeeps he).ne hd hr hk
    refine hu.through (.field hu.schema_eq hu.grows hx (hf j hne)) fun z hz => ?_
    have hzlt : z < w.heap.objects.size := ht.known hz
    obtain ⟨member, t, place⟩ := m
    cases place with
    | field i =>
      have hi : z = o → i ≠ k := fun he => (hfield z i hz rfl he).ne hd hr hk
      have hagree := Agree.field hu.schema_eq hu.grows hzlt (hu.fields_eq ht hz hne hi)
      exact hagree.imp fun u hheld => ⟨ht.known hheld, hu.alike ht ho hheld hi⟩
    | property readable writable =>
      exact ih z readable writable hz rfl hzlt (fun i hi => hu.fields_eq ht hz hne hi) n

end Updates

end World

end RecordForge
