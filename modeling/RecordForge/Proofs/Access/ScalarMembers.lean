import RecordForge.Proofs.Layout.Slots

/-!
# Members of scalar types

A member of a scalar type, or of an enumeration over an integer kind, is written from what converts to
the kind, and from nothing else. It reads as what was written is converted to, and goes on to do so while
something is stored elsewhere only (`World.scalar_members_accept`).

There is more than one gate on the way to the place where the value is kept: the mapper converts it, the
setter of an implementation casts it, and so does the wrapper in which it may be kept. The first gate
decides: what is converted to a kind passes the checks for all types over the kind
(`Schema.IsOver.cast_of_convert`).

That is so where the object has the member as the class does that declares it (`World.Adopts`). A class
below may redeclare a property, so that its accessors are others or are missing. And a wrapper has to be
there: a field for one may be emptied by its slot.
-/

namespace RecordForge

open Run
open Relation (ReflTransGen)

/-! ## Types over a kind -/

/-- A type whose values are of a kind: the kind itself, or an enumeration over an integer kind. -/
inductive Schema.IsOver (s : Schema) : Ty → Kind → Prop
  | scalar (κ : Kind) : IsOver s (.scalar κ) κ
  | enum {t : Ty} {k : IntegerKind} (h : s.underlying? t = some (.integer k)) :
      IsOver s t (.integer k)

/-- An enumeration has a kind under it, and nothing else has. -/
theorem Schema.exists_of_underlying? {s : Schema} {t : Ty} {κ : Kind} (h : s.underlying? t = some κ) :
    ∃ e, t = .enum e ∧ ∃ d, s.enums[e]? = some d ∧ d.underlying = κ := by
  cases t with
  | enum e =>
    obtain ⟨d, hd, hκ⟩ := Option.map_eq_some_iff.mp h
    exact ⟨e, rfl, d, hd, hκ⟩
  | _ => cases h

namespace Schema.IsOver

variable {s s' : Schema} {t : Ty} {κ : Kind} {h : Heap} {v u : Value}

theorem mono (ht : s.IsOver t κ) (hs : s.Extends s') : s'.IsOver t κ := by
  cases ht with
  | scalar => exact .scalar κ
  | enum h =>
    obtain ⟨e, rfl, d, hd, hκ⟩ := exists_of_underlying? h
    refine .enum ?_
    rw [underlying?, enum?, hs.enums hd, Option.map_some, hκ]

/-- It is no class. -/
theorem decl?_eq_none (ht : s.IsOver t κ) : s.decl? t = none := by
  cases ht with
  | scalar => rfl
  | enum h =>
    obtain ⟨e, rfl, -⟩ := exists_of_underlying? h
    rfl

/-- So it has no properties. -/
theorem findProperty?_eq_none (ht : s.IsOver t κ) (name : String) : s.findProperty? t name = none := by
  rw [findProperty?, lineage, ancestors, bases, ht.decl?_eq_none]
  simp [ht.decl?_eq_none]

/-- A member of the type is written as a value of the kind. -/
theorem writerFor_eq (ht : s.IsOver t κ) : MemberMapper.writerFor s t = .ok (some (.scalar κ)) := by
  cases ht with
  | scalar => rfl
  | enum h =>
    obtain ⟨e, rfl, -⟩ := exists_of_underlying? h
    rw [MemberMapper.writerFor, h]
    rfl

/-- **What is converted to a kind passes the checks** for all types over the kind. -/
theorem cast_of_convert (ht : s.IsOver t κ) (hu : s.convert h v κ = .ok u) : s.cast h u t = .ok u := by
  cases ht with
  | scalar => exact Schema.cast_of_convert hu
  | @enum t k henum =>
    obtain ⟨e, rfl, -⟩ := exists_of_underlying? henum
    -- an integer is never null
    obtain ⟨x, rfl, hkind⟩ : ∃ x, u = .scalar x ∧ x.kind = .integer k := by
      rcases Value.eq_of_convert? (convert_eq_ok_iff.mp hu) with ⟨-, rfl⟩ | hscalar
      · exact ⟨.integer (.zero k), rfl, rfl⟩
      · exact hscalar
    have hadmits : s.admits h (.enum e) (.scalar x) = true := by
      show ((some x.kind).isSome && some x.kind == s.underlying? (.enum e)) = true
      rw [hkind, henum]
      exact beq_self_eq_true _
    rw [cast, if_neg (by simp), if_neg (by simp [Value.isNull]), if_pos hadmits]

end Schema.IsOver

/-- A value of a type over the kind of a nullable wrapper is kept in the value of the wrapper. -/
theorem Schema.valueMember?_nullable {s : Schema} {n : ClassId} {type : String} {t : Ty} {κ : Kind}
    {settable : Bool} (hn : s.class? n = some (Nullable.decl type κ settable)) (ht : s.IsOver t κ) :
    s.valueMember? (.cls n) t = some (Nullable.member κ settable) := by
  have hmatch : s.isMatch t (.scalar κ) = true := by
    rw [isMatch]
    cases ht with
    | scalar => rw [beq_self_eq_true, Bool.true_or]
    | enum h =>
      rw [h]
      simp [kind?]
  have hclass : s.isClass (.cls n) = true := by
    rw [isClass, show s.decl? (.cls n) = some _ from hn]
    rfl
  have hfields : s.fieldCandidates (.cls n) = [] := by
    rw [fieldCandidates, publicFields, lineage_nullable hn]
    rfl
  have hproperties : s.propertyCandidates (.cls n) =
      [⟨Nullable.absenceName, .scalar .bool, .property true false⟩, Nullable.member κ settable] := by
    rw [propertyCandidates, publicProperties, lineage_nullable hn]
    cases settable <;> rfl
  rw [valueMember?, if_pos hclass, hfields, hproperties]
  show ((none : Option ValueMember).or (s.pick t _)) = _
  rw [Option.none_or, pick, List.find?_cons_of_neg (by simp [Nullable.absenceName, valueName]),
    List.find?_cons_of_pos (by simp [Nullable.member, hmatch]), Option.some_or]

/-- A mapper that reads and writes a member of a scalar type neither unwraps nor wraps. -/
theorem MemberMapper.make_scalar {s : Schema} {hooks : Hooks} {request : Request} {m : MemberMapper}
    {κ : Kind} (hs : s.Formed) (h : make s hooks request = .ok m) (ht : s.IsOver m.memberType κ)
    (hread : m.canRead = true) (hwrite : m.canWrite = true) :
    s.Declares m.objectType ∧ m.writer = some (.scalar κ) ∧
      (∃ declaring ∈ s.ancestors m.objectType, m.reader = some ⟨declaring, false, false⟩) ∧
      ∀ k, m.access = .field k → k < (s.fields m.objectType).length := by
  obtain ⟨hdeclared, hwriter, ⟨declaring, hdeclaring, hreader⟩, hfield⟩ := make_spec hs h hread hwrite
  rw [ht.writerFor_eq] at hwriter
  rw [ht.findProperty?_eq_none, ht.findProperty?_eq_none] at hreader
  exact ⟨hdeclared, (Except.ok.inj hwriter).symm, ⟨declaring, hdeclaring, hreader⟩, hfield⟩

/-! ## How a member is reached -/

namespace World

/-- The member of a mapper is a property both of whose accessors go through the value of the wrapper in a
slot. -/
structure Wraps (w : World) (m : MemberMapper) (κ : Kind) (o : ObjectId) (k : Nat) : Prop where
  access : m.access = .property
  getter : w.schema.getterFor (w.classOf o) m.member = .ok (.through k (Nullable.member κ true) none)
  setter : w.schema.setterFor (w.classOf o) m.member =
    .ok (.through k (Nullable.member κ true) m.memberType)

/-- The member of a mapper is one slot of an object, or the value of the wrapper that the slot holds. -/
inductive Seats (w : World) (m : MemberMapper) (κ : Kind) (o : ObjectId) (k : Nat) : Prop
  | slot (h : w.Lodges m o k) (hk : w.HasSlots o (k + 1))
  | wrapper {n : ClassId} {type : String} {x : ObjectId} (h : w.Wraps m κ o k)
      (hn : w.schema.class? n = some (Nullable.decl type κ true))
      (hheld : w.heap.field? o k = some (.object x)) (hx : w.isInstance x (.cls n) = true)

/-- The member has a value, in its slot or in the wrapper that the slot holds. -/
inductive Has (w : World) (m : MemberMapper) (κ : Kind) (o : ObjectId) (k : Nat) (u : Value) : Prop
  | slot (h : w.Lodges m o k) (hu : w.heap.field? o k = some u)
  | wrapper {n : ClassId} {type : String} {x : ObjectId} (h : w.Wraps m κ o k)
      (hn : w.schema.class? n = some (Nullable.decl type κ true))
      (hheld : w.heap.field? o k = some (.object x))
      (hx : w.heap.object? x = some ⟨n, true, [u, .ofBool true]⟩)

variable {w w' w₁ : World} {m : MemberMapper} {κ : Kind} {o : ObjectId} {k depth : Nat} {v u : Value}

theorem Wraps.later (h : w.Wraps m κ o k) (hg : w.Guards w') (hw : w.Settled)
    (ho : o < w.heap.objects.size) : w'.Wraps m κ o k := by
  obtain ⟨hdeclared, hclass⟩ := hg.classOf_eq hw ho
  have hclosed : w.schema.Closed := hw.sound.proper.closed
  refine ⟨h.access, ?_, ?_⟩ <;> rw [hclass]
  · exact Schema.getterFor_mono hg.schema hclosed hdeclared h.getter
  · exact Schema.setterFor_mono hg.schema hclosed hdeclared h.setter

/-- What the member has is what is fetched. -/
theorem Has.fetch (h : w.Has m κ o k u) (depth : Nat) :
    fetchMember (depth + 2) m o w = (.ok u, w) := by
  cases h with
  | slot h hu => exact h.fetch hu
  | wrapper h hn hheld hx =>
    rw [fetchMember, h.access]
    exact getProperty_wrapper hn (classOf_eq hx) h.getter hheld (by rw [Heap.field?, hx]; rfl)
      (by rw [Heap.field?, hx]; rfl)

/-- It goes on to have the value while something is stored elsewhere only. -/
theorem Has.elsewhere (h : w.Has m κ o k u) (hw : w.Settled) (ho : o < w.heap.objects.size)
    (hu : u.isLiteral = true) (helse : ReflTransGen (Elsewhere o k) w w₁) : w₁.Has m κ o k u := by
  have hlater : w.Later w₁ := ReflTransGen.mono (fun _ _ h => Elsewhere.moves h) _ _ helse
  have hguards := Later.guards hw hlater
  cases h with
  | slot h hheld => exact .slot (h.later hguards hw ho) (alike_of_elsewhere hw hheld helse).2.1
  | wrapper h hn hheld hx =>
    obtain ⟨-, hheld₁, hsame⟩ := alike_of_elsewhere hw hheld helse
    -- the wrapper has the same contents as before
    obtain ⟨x₁, a, b, he, hx₁, ha, hb⟩ := fields_of_alike hsame hx
    obtain rfl := Value.object.inj he
    obtain rfl := ha.eq_of_isLiteral hu
    obtain rfl := hb.eq_of_isLiteral rfl
    exact .wrapper (h.later hguards hw ho) (hguards.schema.classes hn) hheld₁ hx₁

theorem Seats.later (h : w.Seats m κ o k) (hg : w.Guards w') (hw : w.Settled)
    (ho : o < w.heap.objects.size) (hheap : w'.heap = w.heap) : w'.Seats m κ o k := by
  cases h with
  | slot h hk => exact .slot (h.later hg hw ho) (hk.mono hg.loosens.grows)
  | wrapper h hn hheld hx =>
    have hxlt := hw.tidy.heap.known hheld
    exact .wrapper (h.later hg hw ho) (hg.schema.classes hn) (hheap ▸ hheld) (hg.isInstance hw hxlt hx)

/-- **A value that passes the checks is stored**, and the member has it then. -/
theorem Seats.store (h : w.Seats m κ o k) (hw : w.Settled) (ho : w.Handed (.object o))
    (hkind : w.schema.cast w.heap u (.scalar κ) = .ok u)
    (htype : w.schema.cast w.heap u m.memberType = .ok u) (depth : Nat) :
    ∃ w', storeMember (depth + 2) m o u w = (.ok (), w') ∧ w.Guards w' ∧ w'.Has m κ o k u := by
  have hliteral := Schema.isLiteral_of_cast_scalar hkind
  have htidy : w.heap.Tidy := hw.tidy.heap
  have hguards : ∀ {w'}, storeMember (depth + 2) m o u w = (.ok (), w') → w.Guards w' := by
    intro w' hstore
    have hkeeps := (Regime.keeps_storeMember (Regime.guarded.nested_lawful (depth + 2)) hw m ho
      (fun _ => ho) (.of_isLiteral hliteral)).1
    rwa [show (Calls.nested (depth + 2)).storeMember m o u w = _ from hstore] at hkeeps
  cases h with
  | slot h hk =>
    obtain ⟨heap, u', hstore, -, hheld, hsame⟩ :=
      h.store (depth + 1) htidy hk (.of_isLiteral hliteral) htype
    obtain rfl := hsame.eq_of_isLiteral hliteral
    have hg := hguards hstore
    exact ⟨_, hstore, hg, .slot (h.later hg hw ho.known) hheld⟩
  | @wrapper n type x h hn hheld hx =>
    obtain ⟨a, b, hfields⟩ := hw.formed.fields_nullable hn (htidy.known hheld) hx
    have hslots : w.HasSlots x 2 := ⟨_, hfields, Nat.le_refl _⟩
    obtain ⟨heap, hpresent, hover, hvalue, hpresence, -⟩ := present_spec htidy hslots hkind
    have hstore : storeMember (depth + 2) m o u w = (.ok (), { w with heap }) := by
      have hset : w.schema.setterFor (w.classOf x) valueName = .ok (.wrapped κ) := by
        rw [classOf_eq hfields]
        exact Schema.setterFor_nullable hn
      rw [storeMember, h.access]
      dsimp only
      rw [setProperty_run h.setter, Setter.run, Run.cast, bind_of_ok (check_of_ok htype),
        bind_of_ok (check_of_ok (field_eq_ok_iff.mpr hheld))]
      show setProperty (depth + 1) x valueName u w = _
      rw [setProperty_run hset]
      exact hpresent
    have hheld' : heap.field? o k = some (.object x) := by
      -- a wrapper comes after its holder, so the slot that holds it stays as it is
      have hne : o ≠ x :=
        Nat.ne_of_lt (htidy.ordered hheld (Heap.isByValue_object.mpr ⟨_, hfields, rfl⟩))
      exact (hover.field?_eq ho.known fun he => absurd he hne).trans hheld
    have hx' : heap.object? x = some ⟨n, true, [u, .ofBool true]⟩ := by
      obtain ⟨i, hi, hshape⟩ := hover.grows.objects hfields
      obtain ⟨a', b', rfl⟩ := Instance.eq_of_shape hshape
      rw [Heap.field?, hi] at hvalue hpresence
      obtain rfl := Option.some.inj hvalue
      obtain rfl := Option.some.inj hpresence
      exact hi
    have hg := hguards hstore
    exact ⟨_, hstore, hg, .wrapper (h.later hg hw ho.known) hn hheld' hx'⟩

/-! ## Reading and writing -/

/-- A mapper reads and writes a member of a type over a kind in an object. -/
structure Binds (w : World) (m : MemberMapper) (κ : Kind) (o : ObjectId) : Prop where
  type : w.schema.IsOver m.memberType κ
  writer : m.writer = some (.scalar κ)
  writable : w.isInstance o m.objectType = true
  reader : ∃ declaring, m.reader = some ⟨declaring, false, false⟩ ∧ w.isInstance o declaring = true

theorem Binds.later (h : w.Binds m κ o) (hg : w.Guards w') (hw : w.Settled)
    (ho : o < w.heap.objects.size) : w'.Binds m κ o := by
  obtain ⟨declaring, hreader, hreadable⟩ := h.reader
  exact ⟨h.type.mono hg.schema, h.writer, hg.isInstance hw ho h.writable, declaring, hreader,
    hg.isInstance hw ho hreadable⟩

/-- What the member has is read through the mapper. -/
theorem Binds.mapGet (h : w.Binds m κ o) (hu : w.Has m κ o k u) (depth : Nat) :
    ∃ w', Run.mapGet (depth + 2) m o w = (.ok (m.hooks.outward w.heap u), w') := by
  obtain ⟨declaring, hreader, hreadable⟩ := h.reader
  refine mapGet_ends hreader hreadable (hu.fetch depth) ?_
  rw [unwrap_eq]
  rfl

/-- A value that converts to the kind is stored as what it converts to. -/
theorem Binds.mapSet (h : w.Binds m κ o) (hseats : w.Seats m κ o k) (hw : w.Settled)
    (ho : w.Handed (.object o)) (hu : w.schema.convert w.heap (m.hooks.inward w.heap v) κ = .ok u)
    (depth : Nat) : ∃ w', Run.mapSet (depth + 2) m o v w = (.ok (), w') ∧ w.Guards w' ∧
      w'.Has m κ o k u := by
  obtain ⟨w₁, hheap, hschema, hguards, hbegin⟩ :=
    mapSet_begins (v := v) h.writer h.writable (depth + 2) hw
  have hu₁ : w₁.schema.convert w₁.heap (m.hooks.inward w.heap v) κ = .ok u := by
    rw [hheap, hschema]
    exact hu
  obtain ⟨w', hstore, hguards', hhas⟩ :=
    (hseats.later hguards hw ho.known hheap).store (hguards.settled hw) (hguards.handed ho)
      (Schema.cast_of_convert hu₁) ((h.type.mono hguards.schema).cast_of_convert hu₁) depth
  refine ⟨w', ?_, hguards.trans hguards', hhas⟩
  rw [hbegin]
  exact (bind_of_ok (attempt_of_ok hu₁)).trans hstore

/-- A value that does not convert is refused, and no object changes. -/
theorem Binds.mapSet_refused {e : Halt} (h : w.Binds m κ o) (hw : w.Settled)
    (he : w.schema.convert w.heap (m.hooks.inward w.heap v) κ = .error e) (depth : Nat) :
    ∃ w', Run.mapSet depth m o v w = (.error e, w') ∧ w'.heap = w.heap := by
  obtain ⟨w₁, hheap, hschema, -, hbegin⟩ := mapSet_begins (v := v) h.writer h.writable depth hw
  have he₁ : w₁.schema.convert w₁.heap (m.hooks.inward w.heap v) κ = .error e := by
    rw [hheap, hschema]
    exact he
  refine ⟨w₁, ?_, hheap⟩
  rw [hbegin]
  refine bind_of_error ?_
  show attempt _ w₁ = _
  rw [attempt_run, he₁]

end World

/-! ## Where members are kept -/

/-- A class declares a property that is read from a slot, and the field in the slot is of a type. -/
def ClassDecl.KeepsIn (d : ClassDecl) (name : String) (type : Ty) (k : Nat) (field : Ty) : Prop :=
  ∃ q ∈ d.properties, q.name = name ∧ q.type = type ∧
    (∃ g, q.getter = some (.body g) ∧ g.slot? = some k) ∧ ∃ f, d.layout[k]? = some f ∧ f.type = field

section
variable {w : Workshop} {S : Schema} {cache : List (Ty × DescriptorId)} {σ : Session} {t : Ty}
variable {base : ClassDecl} {i : Implementation} {f : ForgedProperty} {c : ClassId} {κ : Kind}

namespace Implementation.Realizes

variable (hi : i.Realizes w S cache σ t base)
include hi

/-- A property that an implementation declares is one of those that it has been made with. -/
theorem exists_of_keepsIn {name : String} {type field : Ty} {k : Nat}
    (h : (i.decl S).KeepsIn name type k field) :
    ∃ f ∈ i.properties, f.field.property.name = name ∧ f.field.property.type = type ∧
      f.field.slot = k ∧ f.field.fieldType = field := by
  obtain ⟨q, hq, hname, htype, ⟨g, hg, hk⟩, fd, hfd, hfield⟩ := h
  obtain ⟨f, hf, rfl⟩ := List.mem_map.mp hq
  obtain rfl := Accessor.body.inj (Option.some.inj hg)
  obtain rfl := Option.some.inj ((slot?_getter (S := S) f.field).symm.trans hk)
  obtain rfl := Option.some.inj ((hi.layout_slot hf).2.symm.trans hfd)
  exact ⟨f, hf, hname, htype, rfl, hfield⟩

variable (hf : f ∈ i.properties) (hkind : S.IsOver f.field.property.type κ)
include hf hkind

/-- What is kept in a field of its own type has no replacement type: that would be a class. -/
theorem member_eq_none (hfield : f.field.fieldType = f.field.property.type) :
    f.field.member = none := by
  obtain ⟨q, -, k, hreal⟩ := hi.properties.mem hf
  obtain ⟨F, member, hchooses, he⟩ := hreal.eq
  rw [he] at hfield hkind ⊢
  cases hchooses with
  | declared => rfl
  | replaced _ _ hm =>
    rw [Schema.valueMember?, Schema.isClass, show F = q.type from hfield, hkind.decl?_eq_none] at hm
    cases hm

/-- What is kept in a field for a nullable wrapper is kept in the value of the wrapper. -/
theorem member_eq_nullable {n : ClassId} {type : String}
    (hn : S.class? n = some (Nullable.decl type κ true)) (hfield : f.field.fieldType = .cls n) :
    f.field.member = some (Nullable.member κ true) := by
  obtain ⟨q, -, k, hreal⟩ := hi.properties.mem hf
  obtain ⟨F, member, hchooses, he⟩ := hreal.eq
  rw [he] at hfield hkind ⊢
  have hF : F = .cls n := hfield
  cases member with
  | none =>
    -- the type of the property is no class
    have hnone := hkind.decl?_eq_none
    rw [← show F = q.type from hchooses.eq_type, hF] at hnone
    cases hnone.symm.trans hn
  | some m =>
    have hm := hchooses.valueMember?
    rw [hF] at hm
    exact hm.symm.trans (Schema.valueMember?_nullable hn hkind)

end Implementation.Realizes

end

namespace World

/-- An object has a property as a class has it: it is an instance of the class, and dispatch finds the
same accessors on both. -/
structure Adopts (w : World) (o : ObjectId) (c : ClassId) (name : String) : Prop where
  isInstance : w.isInstance o (.cls c) = true
  getter : w.schema.getterFor (w.classOf o) name = w.schema.getterFor (.cls c) name
  setter : w.schema.setterFor (w.classOf o) name = w.schema.setterFor (.cls c) name

/-- How an object keeps the member of a mapper in a slot. -/
inductive Stows (w : World) (m : MemberMapper) (κ : Kind) (o : ObjectId) (k : Nat) : Prop
  /-- The member is a field. -/
  | field (ha : m.access = .field k)
  /-- A class of a draft has the member as a property that keeps itself. -/
  | auto {c : ClassId} {d : ClassDecl} {draft : ClassDraft} {type : Ty} (ha : m.access = .property)
      (ho : w.Adopts o c m.member) (hc : w.schema.class? c = some d)
      (hd : d.Drafted w.schema c draft) (hm : .auto m.member m.memberType ∈ draft.members)
      (hk : d.KeepsIn m.member m.memberType k type)
  /-- An implementation keeps the property in a field of the same type. -/
  | direct {c : ClassId} {d : ClassDecl} (ha : m.access = .property) (ho : w.Adopts o c m.member)
      (hc : w.schema.class? c = some d) (hd : d.isImplementation = true)
      (hk : d.KeepsIn m.member m.memberType k m.memberType)
  /-- An implementation keeps the property in a nullable wrapper that can be written, and there is
  one. -/
  | wrapped {c n : ClassId} {d : ClassDecl} {type : String} {x : ObjectId} (ha : m.access = .property)
      (ho : w.Adopts o c m.member) (hc : w.schema.class? c = some d) (hd : d.isImplementation = true)
      (hk : d.KeepsIn m.member m.memberType k (.cls n))
      (hn : w.schema.class? n = some (Nullable.decl type κ true))
      (hheld : w.heap.field? o k = some (.object x)) (hx : w.isInstance x (.cls n) = true)

variable {w : World} {m : MemberMapper} {κ : Kind} {o : ObjectId} {c : ClassId} {d : ClassDecl}
variable {k : Nat} {v : Value}

/-- An instance of a class has the slots of its properties. -/
theorem Adopts.hasSlots {name : String} {type field : Ty} (h : w.Adopts o c name) (hw : w.Formed)
    (hc : w.schema.class? c = some d) (hk : d.KeepsIn name type k field) : w.HasSlots o (k + 1) := by
  obtain ⟨q, -, -, -, -, f, hf, -⟩ := hk
  refine hw.hasSlots (lt_size_of_isInstance h.isInstance) h.isInstance ?_
  rw [Schema.fields, show w.schema.decl? (.cls c) = some d from hc, Option.elim_some]
  exact (List.getElem?_eq_some_iff.mp hf).1

/-- **A member is reached where it is kept.** -/
theorem Stows.seats (h : w.Stows m κ o k) (hw : Guards {} w) (ht : w.schema.IsOver m.memberType κ)
    (hfield : m.access = .field k → w.HasSlots o (k + 1)) : w.Seats m κ o k := by
  have hformed : w.Formed := (hw.settled settled_empty).formed
  cases h with
  | field ha => exact .slot (.field ha) (hfield ha)
  | @auto c d draft type ha ho hc hd hm hk =>
    have hslots := ho.hasSlots hformed hc hk
    obtain ⟨q, hq, hname, -, ⟨g, hg, hslot⟩, -⟩ := hk
    obtain ⟨j, f, rfl, -⟩ := hd.auto_spec hc hm hq hname
    obtain rfl := Accessor.body.inj (Option.some.inj hg)
    obtain rfl := Option.some.inj hslot
    obtain ⟨-, -, hnames, -⟩ := hd.distinct hc
    have hget : w.schema.getterFor (.cls c) m.member = .ok (.slot j) :=
      Schema.getterFor_own hc hnames hq rfl
    have hset : w.schema.setterFor (.cls c) m.member = .ok (.slot j) :=
      Schema.setterFor_own hc hnames hq rfl
    exact .slot (.property ha hslots (ho.getter.trans hget) (.inl (ho.setter.trans hset))) hslots
  | @direct c d ha ho hc hd hk =>
    have hslots := ho.hasSlots hformed hc hk
    obtain ⟨b, i, shop, cache, -, -, hi, rfl⟩ := (hw.origin hc).exists_implementation hd
    obtain ⟨f, hf, hname, htype, rfl, hfieldType⟩ := hi.exists_of_keepsIn hk
    obtain ⟨q, -, j, hreal⟩ := hi.properties.mem hf
    obtain ⟨hgetter, hsetter⟩ := hreal.accessors_direct
      (hi.member_eq_none hf (htype ▸ ht) (hfieldType.trans htype.symm))
    have hget := hi.getterFor_own hc hf
    have hset := hi.setterFor_own hc hf hsetter
    rw [hgetter, hname] at hget
    rw [hname, htype] at hset
    exact .slot (.property ha hslots (ho.getter.trans hget) (.inr (ho.setter.trans hset))) hslots
  | @wrapped c n d type x ha ho hc hd hk hn hheld hx =>
    obtain ⟨b, i, shop, cache, -, -, hi, rfl⟩ := (hw.origin hc).exists_implementation hd
    obtain ⟨f, hf, hname, htype, rfl, hfieldType⟩ := hi.exists_of_keepsIn hk
    obtain ⟨q, -, j, hreal⟩ := hi.properties.mem hf
    obtain ⟨-, hgetter, hsetter⟩ := hreal.accessors_wrapped
      (hi.member_eq_nullable hf (htype ▸ ht) hn hfieldType)
    have hget := hi.getterFor_own hc hf
    have hset := hi.setterFor_own hc hf hsetter
    rw [hgetter, hname] at hget
    rw [hname, htype] at hset
    exact .wrapper ⟨ha, ho.getter.trans hget, ho.setter.trans hset⟩ hn hheld hx

/-- **A member of a scalar type accepts exactly what converts.** It is written from what converts to the
kind, and from nothing else; otherwise no object changes. It reads as what was written is converted to,
as long as something is stored elsewhere only. -/
theorem scalar_members_accept {w₀ w : World} {hooks : Hooks} {request : MemberMapper.Request}
    {m : MemberMapper} {κ : Kind} {o : ObjectId} {k : Nat} {v : Value} (hw₀ : w₀.Reached)
    (hm : MemberMapper.make w₀.schema hooks request = .ok m) (ht : w₀.schema.IsOver m.memberType κ)
    (hread : m.canRead = true) (hwrite : m.canWrite = true) (hw : w₀.Later w)
    (ho : w.Handed (.object o)) (hinstance : w.isInstance o m.objectType = true)
    (hkept : w.Stows m κ o k) (depth : Nat) :
    ((∃ w', Run.mapSet (depth + 2) m o v w = (.ok (), w')) ↔
      ∃ u, w.schema.convert w.heap (m.hooks.inward w.heap v) κ = .ok u) ∧
    (∀ {w'}, Run.mapSet (depth + 2) m o v w = (.ok (), w') →
      ∃ u, w.schema.convert w.heap (m.hooks.inward w.heap v) κ = .ok u ∧
        ∀ {w₁}, ReflTransGen (Elsewhere o k) w' w₁ → ∀ depth, ∃ w₂,
          Run.mapGet (depth + 2) m o w₁ = (.ok (m.hooks.outward w₁.heap u), w₂)) ∧
    ∀ {e w'}, Run.mapSet (depth + 2) m o v w = (.error e, w') →
      w.schema.convert w.heap (m.hooks.inward w.heap v) κ = .error e ∧
        (¬(m.hooks.inward w.heap v).Endless w.heap → ∃ f, e = .fault f) ∧ w'.heap = w.heap := by
  have hguards := Later.guards hw₀.settled hw
  have hsettled := hguards.settled hw₀.settled
  obtain ⟨hdeclared, hwriter, ⟨declaring, hdeclaring, hreader⟩, hfield⟩ :=
    MemberMapper.make_scalar hw₀.settled.formed.schema hm ht hread hwrite
  have ht' := ht.mono hguards.schema
  have hbinds : w.Binds m κ o := ⟨ht', hwriter, hinstance, declaring, hreader,
    hguards.isInstance_above hw₀.settled hdeclared hdeclaring ho.known hinstance⟩
  have hreached : w.Reached := hw₀.trans hw
  have hseats : w.Seats m κ o k := hkept.seats hreached.guards ht' fun ha =>
    (Lodges.field ha).slots hguards hw₀.settled hdeclared hfield ho.known hinstance
  cases hconvert : w.schema.convert w.heap (m.hooks.inward w.heap v) κ with
  | error e =>
    obtain ⟨w₁, hrefused, hheap⟩ := hbinds.mapSet_refused hsettled hconvert (depth + 2)
    refine ⟨⟨fun ⟨w', hset⟩ => ?_, fun ⟨u, hu⟩ => nomatch hu⟩, fun {w'} hset => ?_,
      fun {e' w'} hset => ?_⟩
    · cases hset.symm.trans hrefused
    · cases hset.symm.trans hrefused
    · obtain ⟨he, rfl⟩ := end_inj.mp (hset.symm.trans hrefused)
      obtain rfl := Except.error.inj he
      exact ⟨rfl, fun hends => Schema.exists_fault_of_convert hends hconvert, hheap⟩
  | ok u =>
    obtain ⟨w₁, hstored, hguards₁, hhas⟩ := hbinds.mapSet hseats hsettled ho hconvert depth
    refine ⟨⟨fun _ => ⟨u, rfl⟩, fun _ => ⟨w₁, hstored⟩⟩, fun {w'} hset => ⟨u, rfl, ?_⟩,
      fun {e w'} hset => ?_⟩
    · obtain ⟨-, rfl⟩ := end_inj.mp (hset.symm.trans hstored)
      intro w₂ helse depth
      have hsettled' := hguards₁.settled hsettled
      have ho' := (hguards₁.handed ho).known
      have hlater := ReflTransGen.mono (fun _ _ h => Elsewhere.moves h) _ _ helse
      have hbinds' := (hbinds.later hguards₁ hsettled ho.known).later (Later.guards hsettled' hlater)
        hsettled' ho'
      have hliteral : u.isLiteral = true := Schema.isLiteral_of_convert hconvert
      exact hbinds'.mapGet (hhas.elsewhere hsettled' ho' hliteral helse) depth
    · cases hset.symm.trans hstored

end World

namespace Scene

/-- Drafts of a nullable number, of a class with a number, of a class below that declares the number
again, without bodies, and of an abstract class with a number that is kept in a nullable one. -/
def potteryDrafts : List ClassDraft :=
  let number : PropertyDecl := World.forestProperty (.scalar (.integer .i32))
  [Nullable.draft "Pottery.Mark" (.integer .i32) true,
   { name := "Pottery.Pot"
     members := [.auto "Heat" (.scalar (.integer .i32)), .defaultConstructor] },
   { name := "Pottery.Jar", base := some (.cls 1)
     members := [.property { number with name := "Heat" }, .defaultConstructor] },
   { name := "Pottery.Tile", isAbstract := true
     members := [.property { number with name := "Mark", attributes := [.mapType (.cls 0)] },
       .defaultConstructor] }]

/-- The world in which `Pottery.Tile` has been implemented, with a jar and a tile. -/
def pottery : World :=
  let w := asked potteryDrafts (.cls 3)
  ((Deed.construct (.cls 4) 0 []).run 8 ((Deed.construct (.cls 2) 0 []).run 8 w).2).2

/-- The world in which the wrapper of the tile has been taken away. -/
def potteryBare : World := ((Deed.setField 1 0 .null).run 8 pottery).2

theorem potteryDrafts_canDeclare : CanDeclare {} potteryDrafts := by decide +kernel

theorem pottery_reached : pottery.Reached := by
  have hasked :=
    asked_reached potteryDrafts_canDeclare (by decide) (by decide) (by decide +kernel) (.cls 3)
  have hnothing : ∀ {w : World} {t : Ty}, (Deed.construct t 0 []).Fits w := fun _ hv => nomatch hv
  exact (hasked.tail (.deed 8 hnothing)).tail (.deed 8 hnothing)

/-- The mapper of the mark of a tile. -/
def potteryMark : MemberMapper where
  objectType := .cls 3
  member := "Mark"
  memberType := .scalar (.integer .i32)
  access := .property
  reader := some ⟨.cls 3, false, false⟩
  writer := some (.scalar (.integer .i32))
  hooks := {}

/-- The mapper of the heat of a pot. -/
def potteryHeat : MemberMapper :=
  { potteryMark with objectType := .cls 1, member := "Heat", reader := some ⟨.cls 1, false, false⟩ }

theorem potteryMark_made :
    MemberMapper.make pottery.schema {} { objectType := .cls 3, member := "Mark", kind := .property } =
      .ok potteryMark := rfl

/-- A tile that is given a truth value for its mark has a number for it. -/
theorem scalar_members_accept_pottery : ∃ w w',
    Run.mapSet 4 potteryMark 1 (.ofBool true) pottery = (.ok (), w) ∧
      Run.mapGet 4 potteryMark 1 w = (.ok (.scalar (.integer (.ofInt32 1))), w') := by
  have hsize : 1 < pottery.heap.objects.size := by decide +kernel
  have htile : pottery.Handed (.object 1) := by
    refine ⟨hsize, fun _ hk => ?_⟩
    obtain ⟨-, _, _, _, -, -, hmem⟩ := hk
    cases hmem
  have hkept : pottery.Stows potteryMark (.integer .i32) 1 0 :=
    .wrapped rfl ⟨by decide +kernel, rfl, rfl⟩ rfl rfl
      ⟨_, List.mem_cons_self, rfl, rfl, ⟨_, rfl, rfl⟩, _, rfl, rfl⟩ rfl rfl (by decide +kernel)
  have hone : pottery.schema.convert pottery.heap (.ofBool true) (.integer .i32) =
      .ok (.scalar (.integer (.ofInt32 1))) := rfl
  obtain ⟨hwritten, hreads, -⟩ := World.scalar_members_accept (v := .ofBool true) pottery_reached
    potteryMark_made (.scalar _) rfl rfl .refl htile (by decide +kernel) hkept 2
  obtain ⟨w, hset⟩ := hwritten.mpr ⟨_, hone⟩
  obtain ⟨u, hu, hget⟩ := hreads hset
  obtain rfl := Except.ok.inj (hone.symm.trans hu)
  obtain ⟨w', hget⟩ := hget .refl 2
  exact ⟨w, w', hset, hget⟩

/-- Null converts to a number. But a jar, which is an instance of `Pottery.Pot`, cannot be given it for
its heat, and a tile cannot be given it for its mark if its wrapper has been taken away. No body of a
user is run for either. -/
theorem pottery_refuses_what_converts :
    (addDrafts {} potteryDrafts).classes.all ClassDecl.isBuiltIn = true ∧
    (MemberMapper.make pottery.schema {} { objectType := .cls 1, member := "Heat", kind := .property } =
        .ok potteryHeat ∧
      pottery.isInstance 0 potteryHeat.objectType = true ∧
      pottery.schema.convert pottery.heap .null (.integer .i32) =
        .ok (.scalar (.integer (.zero .i32))) ∧
      ∃ w, ∀ depth, Run.mapSet (depth + 2) potteryHeat 0 .null pottery =
        (.error (.fault (.abstractMember "Pottery.Jar" "Heat")), w)) ∧
    (potteryBare.isInstance 1 potteryMark.objectType = true ∧
      potteryBare.schema.convert potteryBare.heap .null (.integer .i32) =
        .ok (.scalar (.integer (.zero .i32))) ∧
      ∃ w, ∀ depth, Run.mapSet (depth + 2) potteryMark 1 .null potteryBare =
        (.error (.fault (.nullReference "cannot access 'Value' of null")), w)) :=
  ⟨by decide +kernel, ⟨rfl, by decide +kernel, rfl, _, fun _ => rfl⟩, by decide +kernel, rfl, _,
    fun _ => rfl⟩

end Scene

end RecordForge
