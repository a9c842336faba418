import RecordForge.Proofs.Access.Deeds

/-!
# Members of nullable types

A member whose type is a nullable wrapper is written from null, from a wrapper, or from what converts to
the kind of the wrapper, and from nothing else. It reads as what was written stands for, and goes on to
do so while something is stored elsewhere only (`World.nullable_members_round_trip`).

That is so where the member is one slot of the object (`World.Lodges`): a field, or a property both of
whose accessors reach the slot. A class below may redeclare a property, so that its accessors are others
or are missing.
-/

namespace RecordForge

open Run
open Relation (ReflTransGen)

/-! ## Mappers -/

namespace Schema

variable {s : Schema} {t a b : Ty} {p : PropertyDecl} {name : String} {n : ClassId} {type : String}
variable {κ : Kind} {settable : Bool}

/-- A property is found where it is declared. -/
theorem mem_ancestors_of_findProperty? (h : s.findProperty? t name = some (a, p)) :
    a ∈ s.ancestors t := by
  obtain ⟨⟨a', d⟩, hmem, hfind⟩ := List.exists_of_findSome?_eq_some h
  obtain ⟨p', -, he⟩ := Option.map_eq_some_iff.mp hfind
  obtain ⟨rfl, rfl⟩ := Prod.mk.inj he
  obtain ⟨a'', hmem', hd⟩ := List.mem_filterMap.mp hmem
  obtain ⟨d', -, he⟩ := Option.map_eq_some_iff.mp hd
  obtain ⟨rfl, -⟩ := Prod.mk.inj he
  exact hmem'

/-- A property is read from instances of a class above. -/
theorem Formed.readingType_mem (hs : s.Formed) (h : s.findProperty? t name = some (a, p)) :
    MemberMapper.readingType s t a name ∈ s.ancestors t := by
  have ha := mem_ancestors_of_findProperty? h
  rw [MemberMapper.readingType]
  split
  · next hself =>
    dsimp only [Option.elim]
    split
    · next q hi =>
      obtain ⟨b, hb, hq⟩ := Option.bind_eq_some_iff.mp hi
      obtain ⟨hb, -⟩ := Option.filter_eq_some_iff.mp hb
      obtain ⟨hq, -⟩ := Option.filter_eq_some_iff.mp hq
      have hbase : b ∈ s.bases t := List.mem_of_head? hb
      exact hs.ancestors_subset (List.mem_cons_of_mem _ hbase) (mem_ancestors_of_findProperty? hq)
    · exact ha
  · exact ha

/-- What a nullable wrapper offers to mappers. -/
theorem nullable_offers (hn : s.class? n = some (Nullable.decl type κ settable)) :
    MemberMapper.writerFor s (.cls n) = .ok (some (.nullable κ 0 (.cls n))) ∧
      (s.findProperty? (.cls n) Nullable.absenceName).isSome = true ∧
      (s.findProperty? (.cls n) valueName).isSome = true := by
  have hd : s.decl? (.cls n) = some (Nullable.decl type κ settable) := hn
  have hvalue : s.findProperty? (.cls n) valueName = some (.cls n, {
      name := valueName, type := .scalar κ, getter := some (.body (.wrapped type))
      setter := if settable then some (.body (.wrapped κ)) else none }) := by
    rw [findProperty?, lineage_nullable hn]
    rfl
  refine ⟨?_, ?_, by rw [hvalue]; rfl⟩
  · have hnullable : s.isNullable (.cls n) = true := by
      rw [isNullable, implementsInterface, hd, hvalue, hasStatic, static?, hd]
      rfl
    have hconstructor : s.findConstructor? (.cls n) [.scalar κ] =
        some (0, { params := [.scalar κ], isPublic := true, body := .wrapped κ }) := by
      let made : ConstructorDecl := { params := [.scalar κ], isPublic := true, body := .wrapped κ }
      have hfind : (Nullable.decl type κ settable).constructors.zipIdx.find?
          (fun c => c.1.params == [.scalar κ]) = some (made, 0) :=
        List.find?_cons_of_pos (beq_self_eq_true [Ty.scalar κ])
      rw [findConstructor?, constructors, hd, Option.elim_some]
      exact congrArg (Option.map fun c => (c.2, c.1)) hfind
    rw [MemberMapper.writerFor, show (kind? (.cls n)).or (s.underlying? (.cls n)) = none from rfl,
      hnullable, MemberMapper.nullableWriter, hvalue]
    dsimp only
    rw [hconstructor]
    rfl
  · rw [findProperty?, lineage_nullable hn]
    rfl

end Schema

namespace MemberMapper

variable {s : Schema} {hooks : Hooks} {request : Request} {m : MemberMapper} {member : Member}

/-- What a mapper is made of. -/
theorem exists_of_make (h : make s hooks request = .ok m) : ∃ member writer,
    member? s request = some member ∧
      ((request.writes && member.isWritable) = true → writerFor s member.type = .ok writer) ∧
      ((request.writes && member.isWritable) = false → writer = none) ∧
      m = ⟨request.objectType, request.member, member.type, member.access,
        if request.reads then member.readable.map fun declaring =>
          ⟨declaring, (s.findProperty? member.type Nullable.absenceName).isSome,
            (s.findProperty? member.type valueName).isSome⟩
        else none, writer, hooks⟩ := by
  rw [make] at h
  cases hmember : member? s request with
  | none =>
    rw [hmember] at h
    cases h
  | some member =>
    rw [hmember] at h
    dsimp only at h
    split at h
    · next hwrites =>
      obtain ⟨writer, hwriter, he⟩ := RequestError.bind_eq_ok_iff.mp h
      refine ⟨member, writer, rfl, fun _ => hwriter, fun hno => ?_, (Except.ok.inj he).symm⟩
      rw [hwrites] at hno
      cases hno
    · next hwrites => exact ⟨member, none, rfl, fun h => (hwrites h).elim, fun _ => rfl,
        (Except.ok.inj h).symm⟩

/-- A member is read from instances of a class above, and a field is among the fields of the class. -/
theorem member?_spec (hs : s.Formed) (h : member? s request = some member) :
    s.Declares request.objectType ∧
      (∀ declaring, member.readable = some declaring → declaring ∈ s.ancestors request.objectType) ∧
      ∀ k, member.access = .field k → k < (s.fields request.objectType).length := by
  rw [member?] at h
  split at h
  · obtain ⟨slot, -, h⟩ := Option.bind_eq_some_iff.mp h
    obtain ⟨f, hf, h⟩ := Option.bind_eq_some_iff.mp h
    obtain rfl := Option.some.inj h
    refine ⟨?_, fun declaring hd => ?_, fun k hk => ?_⟩
    · cases hd : s.decl? request.objectType with
      | none => simp [Schema.fields, hd] at hf
      | some d => exact Schema.declares_of_decl? hd
    · exact Option.some.inj hd ▸ List.mem_cons_self
    · obtain rfl := MemberAccess.field.inj hk
      exact (List.getElem?_eq_some_iff.mp hf).1
  · obtain ⟨⟨declaring, p⟩, hfind, h⟩ := Option.bind_eq_some_iff.mp h
    obtain rfl := Option.some.inj h
    refine ⟨?_, fun reading hd => ?_, fun k hk => MemberAccess.noConfusion hk⟩
    · cases hd : s.decl? request.objectType with
      | none => simp [Schema.findProperty?, Schema.lineage, Schema.ancestors, Schema.bases, hd] at hfind
      | some d => exact Schema.declares_of_decl? hd
    have hd : (if p.hasGetter = true then
      some (readingType s request.objectType declaring request.member) else none) = some reading := hd
    split at hd
    · exact Option.some.inj hd ▸ hs.readingType_mem hfind
    · cases hd

/-- How a mapper reads and writes a member depends on the type of the member. -/
theorem make_spec (hs : s.Formed) (h : make s hooks request = .ok m) (hread : m.canRead = true)
    (hwrite : m.canWrite = true) :
    s.Declares m.objectType ∧ writerFor s m.memberType = .ok m.writer ∧
      (∃ declaring ∈ s.ancestors m.objectType, m.reader = some ⟨declaring,
        (s.findProperty? m.memberType Nullable.absenceName).isSome,
        (s.findProperty? m.memberType valueName).isSome⟩) ∧
      ∀ k, m.access = .field k → k < (s.fields m.objectType).length := by
  obtain ⟨member, writer, hmember, hwrites, hnone, rfl⟩ := exists_of_make h
  obtain ⟨hdeclared, hreading, hfield⟩ := member?_spec hs hmember
  refine ⟨hdeclared, ?_, ?_, hfield⟩
  · cases hw : request.writes && member.isWritable with
    | true => exact hwrites hw
    | false =>
      obtain rfl := hnone hw
      cases hwrite
  · obtain ⟨r, hr⟩ := Option.isSome_iff_exists.mp hread
    have hreader := hr
    dsimp only at hr
    split at hr
    · obtain ⟨declaring, hdeclaring, rfl⟩ := Option.map_eq_some_iff.mp hr
      exact ⟨declaring, hreading declaring hdeclaring, hreader⟩
    · cases hr

/-- A mapper that reads and writes a nullable member. -/
theorem make_nullable {n : ClassId} {type : String} {κ : Kind} {settable : Bool} (hs : s.Formed)
    (h : make s hooks request = .ok m) (hn : s.class? n = some (Nullable.decl type κ settable))
    (ht : m.memberType = .cls n) (hread : m.canRead = true) (hwrite : m.canWrite = true) :
    s.Declares m.objectType ∧ m.writer = some (.nullable κ 0 (.cls n)) ∧
      (∃ r, m.reader = some r ∧ r.hasAbsence = true ∧ r.hasValue = true ∧
        r.declaring ∈ s.ancestors m.objectType) ∧
      ∀ k, m.access = .field k → k < (s.fields m.objectType).length := by
  obtain ⟨hdeclared, hwriter, ⟨declaring, hdeclaring, hreader⟩, hfield⟩ :=
    make_spec hs h hread hwrite
  obtain ⟨hoffer, habsence, hvalue⟩ := Schema.nullable_offers hn
  rw [ht, hoffer] at hwriter
  rw [ht] at hreader
  exact ⟨hdeclared, (Except.ok.inj hwriter).symm,
    ⟨_, hreader, habsence, hvalue, hdeclaring⟩, hfield⟩

end MemberMapper

/-! ## One slot of an object -/

/-- The member of a mapper is one slot of an object: it is a field, or a property both of whose accessors
reach the slot. -/
inductive World.Lodges (w : World) (m : MemberMapper) (o : ObjectId) (k : Nat) : Prop
  | field (ha : m.access = .field k)
  | property (ha : m.access = .property) (hk : w.HasSlots o (k + 1))
      (hg : w.schema.getterFor (w.classOf o) m.member = .ok (.slot k))
      (hs : w.schema.setterFor (w.classOf o) m.member = .ok (.slot k) ∨
        w.schema.setterFor (w.classOf o) m.member = .ok (.slotOf k m.memberType))

/-- A property of a nullable type that an implementation stores is one slot of the instances. -/
theorem Schema.Accesses.lodges {w : World} {m : MemberMapper} {o : ObjectId} {k : Nat} {c n : ClassId}
    {d : ClassDecl} {p : PropertyDecl} (h : w.schema.Accesses d (.cls c) p k)
    (ho : w.Equipped c d o) (ha : m.access = .property) (hname : m.member = p.name)
    (htype : m.memberType = p.type) (hp : p.type = .cls n) : w.Lodges m o k := by
  cases h with
  | direct hlt _ hget hset =>
    refine .property ha (ho.hasSlots hlt) ?_ (.inr ?_)
    · rw [ho.classOf, hname]
      exact hget
    · rw [ho.classOf, hname, htype]
      exact hset
  | wrapped _ hkind =>
    -- the value of a wrapper is a scalar
    rw [hp] at hkind
    rcases hkind with hkind | hkind <;> cases hkind

namespace World

variable {w w' : World} {m : MemberMapper} {o : ObjectId} {k depth : Nat} {v u c : Value}

/-- The class of an object is declared, and stays what it is. -/
theorem Guards.classOf_eq (h : w.Guards w') (hw : w.Settled) (ho : o < w.heap.objects.size) :
    w.schema.Declares (w.classOf o) ∧ w'.classOf o = w.classOf o := by
  obtain ⟨i, hi, hclass⟩ := classOf_of_known ho
  refine ⟨?_, h.loosens.grows.classOf_eq ho⟩
  obtain ⟨d, hd, -⟩ := hw.formed.heap o i hi
  rw [hclass]
  exact Option.isSome_iff_exists.mpr ⟨d, hd⟩

/-- An object goes on to be an instance of what it is an instance of. -/
theorem Guards.isInstance {t : Ty} (h : w.Guards w') (hw : w.Settled) (ho : o < w.heap.objects.size)
    (ht : w.isInstance o t = true) : w'.isInstance o t = true := by
  obtain ⟨hdeclared, hclass⟩ := h.classOf_eq hw ho
  rw [World.isInstance, hclass, Schema.isAssignable_eq h.schema hdeclared]
  exact ht

/-- It is one of what was above that before. -/
theorem Guards.isInstance_above {w₀ : World} {t a : Ty} (h : w₀.Guards w) (hw₀ : w₀.Settled)
    (ht : w₀.schema.Declares t) (ha : a ∈ w₀.schema.ancestors t) (ho : o < w.heap.objects.size)
    (hinstance : w.isInstance o t = true) : w.isInstance o a = true := by
  obtain ⟨i, -, hclass⟩ := classOf_of_known ho
  rw [← Schema.ancestors_eq h.schema ht] at ha
  rw [World.isInstance, hclass] at hinstance ⊢
  exact (h.settled hw₀).formed.schema.isAssignable_trans hinstance
    (Schema.isAssignable_of_mem_ancestors ha)

/-- A member goes on to be one slot. -/
theorem Lodges.later (h : w.Lodges m o k) (hg : w.Guards w') (hw : w.Settled)
    (ho : o < w.heap.objects.size) : w'.Lodges m o k := by
  obtain ⟨hdeclared, hclass⟩ := hg.classOf_eq hw ho
  have hclosed : w.schema.Closed := hw.sound.proper.closed
  cases h with
  | field ha => exact .field ha
  | property ha hk hget hset =>
    refine .property ha (hk.mono hg.loosens.grows) ?_ ?_
    · rw [hclass]
      exact Schema.getterFor_mono hg.schema hclosed hdeclared hget
    · rw [hclass]
      exact hset.imp (Schema.setterFor_mono hg.schema hclosed hdeclared)
        (Schema.setterFor_mono hg.schema hclosed hdeclared)

/-- An object has the slot of a member. -/
theorem Lodges.slots {w₀ : World} (h : w.Lodges m o k) (hg : w₀.Guards w) (hw₀ : w₀.Settled)
    (hm : w₀.schema.Declares m.objectType)
    (hfield : ∀ k, m.access = .field k → k < (w₀.schema.fields m.objectType).length)
    (ho : o < w.heap.objects.size) (hinstance : w.isInstance o m.objectType = true) :
    w.HasSlots o (k + 1) := by
  cases h with
  | field ha =>
    refine (hg.settled hw₀).formed.hasSlots ho hinstance ?_
    rw [Schema.fields_eq hg.schema hm]
    exact hfield k ha
  | property _ hk => exact hk

/-- What the slot holds is what is fetched. -/
theorem Lodges.fetch (h : w.Lodges m o k) (hc : w.heap.field? o k = some c) :
    fetchMember (depth + 1) m o w = (.ok c, w) := by
  rw [fetchMember]
  cases h with
  | field ha =>
    rw [ha]
    exact check_of_ok (field_eq_ok_iff.mpr hc)
  | property ha _ hget _ =>
    rw [ha]
    exact (getProperty_run hget).trans (check_of_ok (field_eq_ok_iff.mpr hc))

/-- A value that fits the type of the member is stored into the slot. -/
theorem Lodges.store (h : w.Lodges m o k) (depth : Nat) (ht : w.heap.Tidy) (hk : w.HasSlots o (k + 1))
    (hv : v.Known w.heap) (hcast : w.schema.cast w.heap v m.memberType = .ok v) :
    ∃ heap u, storeMember (depth + 1) m o v w = (.ok (), { w with heap }) ∧
      w.heap.Overwrites heap o (· = k) ∧ heap.field? o k = some u ∧ w.heap.Alike heap v u := by
  obtain ⟨heap, u, hset, hspec⟩ := setField_spec ht hk hv
  refine ⟨heap, u, ?_, hspec⟩
  rw [storeMember]
  cases h with
  | field ha =>
    rw [ha]
    exact change_of_ok hset
  | property ha _ _ hs =>
    rw [ha]
    rcases hs with hs | hs
    · exact (setProperty_run hs).trans (change_of_ok hset)
    · exact (setProperty_run hs).trans ((bind_of_ok (check_of_ok hcast)).trans (change_of_ok hset))

/-! ## Reading and writing -/

/-- Before a value is stored, the object is checked, and an observer sees the value. -/
theorem mapSet_begins {writer : MemberWriter} (hwriter : m.writer = some writer)
    (hinstance : w.isInstance o m.objectType = true) (depth : Nat) (hw : w.Settled) :
    ∃ w₁, w₁.heap = w.heap ∧ w₁.schema = w.schema ∧ w.Guards w₁ ∧
      Run.mapSet depth m o v w = (wrap depth writer (m.hooks.inward w.heap v) >>= fun u =>
        storeMember depth m o u) w₁ := by
  obtain ⟨w₁, hnotice, hschema, hheap⟩ := notice_run w m .inward v
  have hguards : w.Guards w₁ := by
    have hkeeps := (Regime.keeps_notice (G := .guarded) hw m .inward v).1
    rwa [hnotice] at hkeeps
  refine ⟨w₁, hheap, hschema, hguards, ?_⟩
  have hrequire : requireInstance o m.objectType w = (.ok (), w) := by
    rw [requireInstance_run, if_pos hinstance]
  rw [mapSet_eq hwriter, bind_of_ok hrequire, bind_of_ok hnotice, ask_bind, hheap]

/-- What has been fetched and unwrapped is what is read. -/
theorem mapGet_ends {r : MemberReader} (hr : m.reader = some r)
    (hreadable : w.isInstance o r.declaring = true) (hfetch : fetchMember depth m o w = (.ok c, w))
    (hunwrap : unwrap depth r c w = (.ok u, w)) :
    ∃ w', Run.mapGet depth m o w = (.ok (m.hooks.outward w.heap u), w') := by
  obtain ⟨w', hnotice, -, hheap⟩ := notice_run w m .outward u
  have hrequire : requireInstance o r.declaring w = (.ok (), w) := by
    rw [requireInstance_run, if_pos hreadable]
  refine ⟨w', ?_⟩
  rw [mapGet_eq hr, bind_of_ok hrequire, bind_of_ok hfetch, bind_of_ok hunwrap,
    bind_of_ok hnotice, ← hheap]
  rfl

/-- An object has a slot for a member of a nullable type, and a mapper reads and writes it. -/
structure Bears (w : World) (m : MemberMapper) (n : ClassId) (κ : Kind) (o : ObjectId) (k : Nat) :
    Prop where
  wrapper : ∃ type settable, w.schema.class? n = some (Nullable.decl type κ settable)
  type : m.memberType = .cls n
  writer : m.writer = some (.nullable κ 0 (.cls n))
  writable : w.isInstance o m.objectType = true
  reader : ∃ r, m.reader = some r ∧ r.hasAbsence = true ∧ r.hasValue = true ∧
    w.isInstance o r.declaring = true
  lodges : w.Lodges m o k
  slots : w.HasSlots o (k + 1)

variable {n : ClassId} {type : String} {κ : Kind} {settable : Bool} {r : Value}

theorem Bears.later (h : w.Bears m n κ o k) (hg : w.Guards w') (hw : w.Settled) :
    w'.Bears m n κ o k := by
  have ho : o < w.heap.objects.size := by
    obtain ⟨i, hi, -⟩ := h.slots
    exact Heap.lt_of_object? hi
  obtain ⟨type, settable, hn⟩ := h.wrapper
  obtain ⟨r, hr, habsence, hvalue, hreadable⟩ := h.reader
  exact ⟨⟨type, settable, hg.schema.classes hn⟩, h.type, h.writer,
    hg.isInstance hw ho h.writable, ⟨r, hr, habsence, hvalue, hg.isInstance hw ho hreadable⟩,
    h.lodges.later hg hw ho,
    h.slots.mono hg.loosens.grows⟩

/-- What is read through a mapper is what the wrapper reads as. -/
theorem Bears.mapGet {y : ObjectId} {a b : Value} (h : w.Bears m n κ o k)
    (hc : w.heap.field? o k = some (.object y))
    (hy : w.heap.object? y = some ⟨n, true, [a, b]⟩) : ∃ w',
      Run.mapGet (depth + 1) m o w = (.ok (m.hooks.outward w.heap (Nullable.content a b)), w') := by
  obtain ⟨type, settable, hn⟩ := h.wrapper
  obtain ⟨r, hr, habsence, hvalue, hreadable⟩ := h.reader
  exact mapGet_ends hr hreadable (h.lodges.fetch hc) (unwrap_nullable hn habsence hvalue hy)

/-- What a value stands for depends on schema and heap only. -/
theorem StandsFor.of_same (h : w.StandsFor (depth + 1) n κ v r) (hw : w.Formed) (hv : v.Known w.heap)
    (hn : w.schema.class? n = some (Nullable.decl type κ settable)) (hschema : w'.schema = w.schema)
    (hheap : w'.heap = w.heap) : w'.StandsFor (depth + 1) n κ v r := by
  have hwrapper : ∀ {x}, v = .object x → w.isInstance x (.cls n) = true →
      w'.StandsFor (depth + 1) n κ v r := by
    rintro x rfl hx
    obtain ⟨a, b, hfields⟩ := hw.fields_nullable hn hv hx
    obtain rfl := h.eq_content hn hfields
    exact standsFor_of_fields (hschema ▸ hn) (hheap ▸ hfields)
  cases h with
  | null => exact .null
  | absent hx => exact hwrapper rfl hx
  | present hx => exact hwrapper rfl hx
  | converted hnull hu => exact .converted hnull (by rw [hschema, hheap]; exact hu)

/-- Fields that are alike make wrappers that read alike. -/
theorem content_alike {h h' : Heap} {a b a' b' : Value} (ha : h.Alike h' a a')
    (hb : h.Alike h' b b') : h.Alike h' (Nullable.content a b) (Nullable.content a' b') := by
  have hpresence : b'.bool? = b.bool? := by
    cases hb <;> rfl
  rw [Nullable.content, Nullable.content, hpresence]
  split
  · exact ha
  · exact .null

/-- A wrapper may be stored where its class is expected. -/
theorem cast_wrapper {y : ObjectId} {a b : Value}
    (hy : w.heap.object? y = some ⟨n, true, [a, b]⟩) :
    w.schema.cast w.heap (.object y) (.cls n) = .ok (.object y) := by
  rw [Schema.cast, if_neg (by simp), if_neg (by simp [Value.isNull]), if_pos]
  show w.schema.isAssignable (w.classOf y) (.cls n) = true
  rw [classOf_eq hy, Schema.isAssignable, beq_self_eq_true, Bool.true_or]

/-- A value that stands for something is stored as a wrapper that reads as such. -/
theorem Bears.mapSet (h : w.Bears m n κ o k) (hw : w.Settled) (hv : w.Handed (m.hooks.inward w.heap v))
    (hr : w.StandsFor (depth + 1) n κ (m.hooks.inward w.heap v) r) : ∃ w' y a b,
      Run.mapSet (depth + 1) m o v w = (.ok (), w') ∧ w'.heap.field? o k = some (.object y) ∧
        w'.heap.object? y = some ⟨n, true, [a, b]⟩ ∧
        w.heap.Alike w'.heap r (Nullable.content a b) := by
  obtain ⟨type, settable, hn⟩ := h.wrapper
  obtain ⟨w₁, hheap₁, hschema₁, hguards₁, hbegin⟩ :=
    mapSet_begins (v := v) h.writer h.writable (depth + 1) hw
  have hv₁ := hguards₁.handed hv
  have hsettled₁ := hguards₁.settled hw
  have hr₁ := hr.of_same hw.formed hv.known hn hschema₁ hheap₁
  obtain ⟨x, w₂, hwrap, hprepares⟩ := hr₁.wrap (hschema₁ ▸ hn) hsettled₁ hv₁.known
  have hguards₂ : w₁.Guards w₂ := by
    have hkeeps := (Regime.keeps_wrap Regime.guarded_serves (Regime.nested_governed .guarded (depth + 1))
      hsettled₁ (.nullable κ 0 (.cls n)) hv₁).1
    rwa [← Run.wrap_by, hwrap] at hkeeps
  have hsettled₂ := hguards₂.settled hsettled₁
  have h₂ := (h.later hguards₁ hw).later hguards₂ hsettled₁
  obtain ⟨a, b, hx, hsame⟩ := hprepares.fields
  -- the slot is given a copy of what has been prepared
  obtain ⟨heap, u, hstore, -, hheld, hcopy⟩ := h₂.lodges.store depth hsettled₂.tidy.heap
    h₂.slots (v := .object x) (Heap.lt_of_object? hx) (h.type ▸ cast_wrapper hx)
  obtain ⟨y, a', b', rfl, hy, ha, hb⟩ := fields_of_alike hcopy hx
  rw [hheap₁] at hsame
  refine ⟨{ w₂ with heap }, y, a', b', ?_, hheld, hy, hsame.trans (content_alike ha hb)⟩
  rw [hbegin, bind_of_ok hwrap, hstore]

/-- A value that stands for nothing is refused, and no object changes. -/
theorem Bears.mapSet_refused (h : w.Bears m n κ o k) (hw : w.Settled)
    (hv : w.Handed (m.hooks.inward w.heap v))
    (hr : ∀ r, ¬w.StandsFor (depth + 1) n κ (m.hooks.inward w.heap v) r) : ∃ e w',
      w.schema.convert w.heap (m.hooks.inward w.heap v) κ = .error e ∧
        Run.mapSet (depth + 1) m o v w = (.error e, w') ∧ w'.heap = w.heap := by
  obtain ⟨type, settable, hn⟩ := h.wrapper
  obtain ⟨w₁, hheap₁, hschema₁, hguards₁, hbegin⟩ :=
    mapSet_begins (v := v) h.writer h.writable (depth + 1) hw
  have hv₁ := hguards₁.handed hv
  have hsettled₁ := hguards₁.settled hw
  have hr₁ : ∀ r, ¬w₁.StandsFor (depth + 1) n κ (m.hooks.inward w.heap v) r := fun r h₁ =>
    hr r (h₁.of_same hsettled₁.formed hv₁.known (hschema₁ ▸ hn) hschema₁.symm hheap₁.symm)
  obtain ⟨e, he, hrefused⟩ := wrap_refused (hschema₁ ▸ hn) hsettled₁ hv₁.known hr₁
  rw [hschema₁, hheap₁] at he
  exact ⟨e, w₁, he, hbegin.trans (bind_of_error hrefused), hheap₁⟩

/-- The mapper that was made for a member of a nullable type finds the member in instances of the type. -/
theorem bears_of_make {w₀ : World} {hooks : Hooks} {request : MemberMapper.Request}
    (hw₀ : w₀.Reached) (hm : MemberMapper.make w₀.schema hooks request = .ok m)
    (hn : w₀.schema.class? n = some (Nullable.decl type κ settable)) (ht : m.memberType = .cls n)
    (hread : m.canRead = true) (hwrite : m.canWrite = true) (hw : w₀.Later w)
    (ho : w.Handed (.object o)) (hinstance : w.isInstance o m.objectType = true)
    (hl : w.Lodges m o k) : w.Bears m n κ o k := by
  have hguards := Later.guards hw₀.settled hw
  have hsettled := hguards.settled hw₀.settled
  obtain ⟨hdeclared, hwriter, ⟨r, hr, habsence, hvalue, hdeclaring⟩, hfield⟩ :=
    MemberMapper.make_nullable hw₀.settled.formed.schema hm hn ht hread hwrite
  exact ⟨⟨type, settable, hguards.schema.classes hn⟩, ht, hwriter, hinstance,
    ⟨r, hr, habsence, hvalue,
      hguards.isInstance_above hw₀.settled hdeclared hdeclaring ho.known hinstance⟩, hl,
    hl.slots hguards hw₀.settled hdeclared hfield ho.known hinstance⟩

/-- **A member of a nullable type** is written from null, from a wrapper, or from what converts to the
kind, and from nothing else; otherwise no object changes. It reads as what was written stands for, as
long as something is stored elsewhere only, and no other slot shares its wrapper. -/
theorem nullable_members_round_trip {w₀ w : World} {hooks : Hooks} {request : MemberMapper.Request}
    {m : MemberMapper} {n : ClassId} {type : String} {κ : Kind} {settable : Bool} {o : ObjectId}
    {k : Nat} {v : Value} (hw₀ : w₀.Reached)
    (hm : MemberMapper.make w₀.schema hooks request = .ok m)
    (hn : w₀.schema.class? n = some (Nullable.decl type κ settable)) (ht : m.memberType = .cls n)
    (hread : m.canRead = true) (hwrite : m.canWrite = true) (hw : w₀.Later w)
    (ho : w.Handed (.object o)) (hinstance : w.isInstance o m.objectType = true)
    (hl : w.Lodges m o k) (hv : w.Handed (m.hooks.inward w.heap v)) (depth : Nat) :
    ((∃ w', Run.mapSet (depth + 1) m o v w = (.ok (), w')) ↔
      m.hooks.inward w.heap v = .null ∨
      (∃ x, m.hooks.inward w.heap v = .object x ∧ w.isInstance x (.cls n) = true) ∨
      ∃ u, w.schema.convert w.heap (m.hooks.inward w.heap v) κ = .ok u) ∧
    (∀ {w'}, Run.mapSet (depth + 1) m o v w = (.ok (), w') →
      (∃ y, w'.heap.field? o k = some (.object y) ∧
        ∀ {a j}, w'.heap.field? a j = some (.object y) → a = o ∧ j = k) ∧
      ∃ r, w.StandsFor (depth + 1) n κ (m.hooks.inward w.heap v) r ∧
        ∀ {w₁}, ReflTransGen (Elsewhere o k) w' w₁ → ∃ r' w₂,
          Run.mapGet (depth + 1) m o w₁ = (.ok (m.hooks.outward w₁.heap r'), w₂) ∧
            w.heap.Alike w₁.heap r r') ∧
    ∀ {e w'}, Run.mapSet (depth + 1) m o v w = (.error e, w') →
      w.schema.convert w.heap (m.hooks.inward w.heap v) κ = .error e ∧
        (¬(m.hooks.inward w.heap v).Endless w.heap → ∃ f, e = .fault f) ∧ w'.heap = w.heap := by
  have hbears := bears_of_make hw₀ hm hn ht hread hwrite hw ho hinstance hl
  have hguards := Later.guards hw₀.settled hw
  have hsettled := hguards.settled hw₀.settled
  have hn' := hguards.schema.classes hn
  have hstands := exists_standsFor_iff hn' depth hsettled.formed hv.known
  refine ⟨?_, fun {w'} hset => ?_, fun {e w'} hset => ?_⟩
  · rw [← hstands]
    constructor
    · rintro ⟨w', hset⟩
      by_contra hno
      obtain ⟨e, w₁, -, hrefused, -⟩ := hbears.mapSet_refused hsettled hv (not_exists.mp hno)
      cases hset.symm.trans hrefused
    · rintro ⟨r, hr⟩
      obtain ⟨w', -, -, -, hset, -⟩ := hbears.mapSet hsettled hv hr
      exact ⟨w', hset⟩
  · obtain ⟨r, hr⟩ : ∃ r, w.StandsFor (depth + 1) n κ (m.hooks.inward w.heap v) r := by
      by_contra hno
      obtain ⟨e, w₁, -, hrefused, -⟩ := hbears.mapSet_refused hsettled hv (not_exists.mp hno)
      cases hset.symm.trans hrefused
    obtain ⟨w'', y, a, b, hset', hheld, hy, hsame⟩ := hbears.mapSet hsettled hv hr
    obtain ⟨-, rfl⟩ := end_inj.mp (hset.symm.trans hset')
    have hguards' : w.Guards w' := by
      have hkeeps := (Regime.keeps_mapSet Regime.guarded_serves
        (Regime.nested_governed .guarded (depth + 1)) hsettled m ho (fun _ => ho) hv).1
      rwa [← Run.mapSet_by, hset] at hkeeps
    have hsettled' := hguards'.settled hsettled
    refine ⟨⟨y, hheld, fun hother => ?_⟩, r, hr, fun {w₁} helse => ?_⟩
    · exact hsettled'.tidy.heap.separate hother hheld (Heap.isByValue_object.mpr ⟨_, hy, rfl⟩)
    · obtain ⟨hsettled₁, hheld₁, hsame₁⟩ := alike_of_elsewhere hsettled' hheld helse
      have hlater : w'.Later w₁ := ReflTransGen.mono (fun _ _ h => Elsewhere.moves h) _ _ helse
      have hbears₁ := (hbears.later hguards' hsettled).later (Later.guards hsettled' hlater) hsettled'
      obtain ⟨y₁, a₁, b₁, he, hy₁, ha, hb⟩ := fields_of_alike hsame₁ hy
      obtain rfl := Value.object.inj he
      obtain ⟨w₂, hget⟩ := hbears₁.mapGet hheld₁ hy₁
      exact ⟨_, w₂, hget, hsame.trans (content_alike ha hb)⟩
  · by_cases hr : ∃ r, w.StandsFor (depth + 1) n κ (m.hooks.inward w.heap v) r
    · obtain ⟨r, hr⟩ := hr
      obtain ⟨w₁, -, -, -, hset', -⟩ := hbears.mapSet hsettled hv hr
      cases hset.symm.trans hset'
    · obtain ⟨e', w₁, he', hrefused, hheap⟩ := hbears.mapSet_refused hsettled hv (not_exists.mp hr)
      obtain ⟨he, rfl⟩ := end_inj.mp (hset.symm.trans hrefused)
      obtain rfl := Except.error.inj he
      exact ⟨he', fun hends => Schema.exists_fault_of_convert hends he', hheap⟩

end World

namespace Scene

/-- Drafts of a nullable number, of a class that keeps one as a property, and of a class below that
declares the property again, without bodies. -/
def cellarDrafts : List ClassDraft :=
  [Nullable.draft "Cellar.Age" (.integer .i32) false,
   { name := "Cellar.Cask"
     members := [.auto "Age" (.cls 0), .defaultConstructor] },
   { name := "Cellar.Keg", base := some (.cls 1)
     members := [
       .property { name := "Age", type := .cls 0, getter := some .abstract, setter := some .abstract },
       .defaultConstructor] }]

/-- The world with a cask and a keg. -/
def cellar : World :=
  let w : World := { schema := addDrafts {} cellarDrafts }
  ((Deed.construct (.cls 2) 0 []).run 4 ((Deed.construct (.cls 1) 0 []).run 4 w).2).2

theorem cellar_canDeclare : CanDeclare {} cellarDrafts := by decide +kernel

theorem cellar_reached : cellar.Reached := by
  have hdeclared := declare_reached .refl cellar_canDeclare (by decide +kernel)
  have hnothing : ∀ {w : World} {t : Ty}, (Deed.construct t 0 []).Fits w := fun _ hv => nomatch hv
  exact (hdeclared.tail (.deed 4 hnothing)).tail (.deed 4 hnothing)

/-- The mapper of the age of a cask. -/
def cellarAge : MemberMapper where
  objectType := .cls 1
  member := "Age"
  memberType := .cls 0
  access := .property
  reader := some ⟨.cls 1, true, true⟩
  writer := some (.nullable (.integer .i32) 0 (.cls 0))
  hooks := {}

theorem cellarAge_made :
    MemberMapper.make cellar.schema {} { objectType := .cls 1, member := "Age", kind := .property } =
      .ok cellarAge := rfl

/-- A cask that is given a truth value for its age has a number for it. -/
theorem nullable_members_round_trip_cellar : ∃ w w',
    Run.mapSet 4 cellarAge 0 (.ofBool true) cellar = (.ok (), w) ∧
      Run.mapGet 4 cellarAge 0 w = (.ok (.scalar (.integer (.ofInt32 1))), w') := by
  have hsize : 0 < cellar.heap.objects.size := by decide +kernel
  have hcask : cellar.Handed (.object 0) := by
    refine ⟨hsize, fun _ hk => ?_⟩
    obtain ⟨-, _, _, _, -, -, hmem⟩ := hk
    cases hmem
  have hlodges : cellar.Lodges cellarAge 0 0 :=
    .property rfl ⟨_, rfl, by decide +kernel⟩ rfl (.inl rfl)
  have hone : cellar.schema.convert cellar.heap (.ofBool true) (.integer .i32) =
      .ok (.scalar (.integer (.ofInt32 1))) := rfl
  obtain ⟨hwritten, hreads, -⟩ := World.nullable_members_round_trip (v := .ofBool true) cellar_reached
    cellarAge_made rfl rfl rfl rfl .refl hcask (by decide +kernel) hlodges (.of_isLiteral rfl) 3
  obtain ⟨w, hset⟩ := hwritten.mpr (.inr (.inr ⟨_, hone⟩))
  obtain ⟨-, r, hstands, hget⟩ := hreads hset
  obtain ⟨r', w', hget, hsame⟩ := hget .refl
  cases hstands with
  | converted _ hu =>
    obtain rfl := Except.ok.inj (hone.symm.trans hu)
    obtain rfl := hsame.eq_of_isLiteral rfl
    exact ⟨w, w', hset, hget⟩

/-- A keg is an instance of `Cellar.Cask`, and no body of a user is run for its age. But it cannot be
given an absent age, nor can its age be read. -/
theorem cellar_keg_has_no_age :
    cellar.isInstance 2 cellarAge.objectType = true ∧
      cellar.schema.classes.all ClassDecl.isBuiltIn = true ∧
      (∀ depth, Run.mapSet (depth + 1) cellarAge 2 .null cellar =
        (.error (.fault (.abstractMember "Cellar.Keg" "Age")), (Run.mapSet 1 cellarAge 2 .null cellar).2)) ∧
      ∀ depth, Run.mapGet (depth + 1) cellarAge 2 cellar =
        (.error (.fault (.abstractMember "Cellar.Keg" "Age")), cellar) :=
  ⟨by decide +kernel, by decide +kernel, fun _ => rfl, fun _ => rfl⟩

end Scene

end RecordForge
