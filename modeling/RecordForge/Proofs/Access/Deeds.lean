import RecordForge.Proofs.Access.Nullables

/-!
# Objects held by value belong to one field

What can be done with a world: classes are declared, registries are opened and asked, and deeds are
done, one after the other. A deed creates, copies, reads or writes; it may run bodies, and it may be
given whatever can be come by (`World.Moves`). All of this guards what statics keep
(`World.Moves.guards`), so in each world that comes about (`World.Reached`) an object that is held by
value belongs to one field.

A field that has been given such an object holds a copy. What was there before is outside of the copy,
and so are other copies of the holder and everything that is reached from there. Writes to what is
outside, as often as they happen, leave the contents of the field as they are
(`World.fields_own_their_values`).
-/

namespace RecordForge

open Relation (ReflTransGen TransGen)

/-! ## Deeds -/

/-- Something that is done to the objects of a world from outside. -/
inductive Deed where
  | construct (t : Ty) (constructor : Nat) (args : List Value)
  | chain (t : Ty) (constructor : Nat) (o : ObjectId) (args : List Value)
  | getProperty (o : ObjectId) (name : String)
  | setProperty (o : ObjectId) (name : String) (v : Value)
  | getField (o : ObjectId) (slot : Nat)
  | setField (o : ObjectId) (slot : Nat) (v : Value)
  | copy (o : ObjectId)
  | assign (v : Value)
  | blank (t : Ty)
  | getStatic (t : Ty) (name : String)
  | readMember (m : ValueMember) (holder : Value)
  | writeMember (m : ValueMember) (holder v : Value)
  | newCarrier
  | setParameters (c : CarrierId) (values : Option (List Value))
  | create (d : Descriptor) (carrier : Option CarrierId)
  | mapGet (m : MemberMapper) (o : ObjectId)
  | mapSet (m : MemberMapper) (o : ObjectId) (v : Value)

namespace Deed

/-- Does a deed. -/
def run (depth : Nat) : Deed → Run Unit
  | construct t k args => discard (Run.construct depth t k args)
  | chain t k o args => Run.chain depth t k o args
  | getProperty o name => discard (Run.getProperty depth o name)
  | setProperty o name v => Run.setProperty depth o name v
  | getField o slot => discard (Run.getField o slot)
  | setField o slot v => Run.setField o slot v
  | copy o => discard (Run.copy o)
  | assign v => discard (Run.assign v)
  | blank t => discard (Run.blankValue t)
  | getStatic t name => discard (Run.getStatic depth t name)
  | readMember m holder => discard (Run.readMember depth m holder)
  | writeMember m holder v => Run.writeMember depth m holder v
  | newCarrier => discard Run.newCarrier
  | setParameters c values => Run.setParameters c values
  | create d carrier => discard (Run.create depth d carrier)
  | mapGet m o => discard (Run.mapGet depth m o)
  | mapSet m o v => Run.mapSet depth m o v

/-- Does a deed, by calls. -/
def runBy (c : Calls) : Deed → Run Unit
  | construct t k args => discard (c.construct t k args)
  | chain t k o args => c.chain t k o args
  | getProperty o name => discard (c.read o name)
  | setProperty o name v => c.write o name v
  | getStatic t name => discard (c.getStatic t name)
  | readMember m holder => discard (m.read c holder)
  | writeMember m holder v => m.write c holder v
  | create d none => discard (d.create c)
  | create d (some carrier) => discard (d.createWith c carrier)
  | mapGet m o => discard (c.mapGet m o)
  | mapSet m o v => c.mapSet m o v
  -- the others make no calls
  | d => d.run 0

theorem run_eq (d : Deed) (depth : Nat) : d.run depth = d.runBy (Calls.nested depth) := by
  cases d with
  | getStatic t name => rw [run, Run.getStatic_eq, runBy]
  | mapGet m o => rw [run, Run.mapGet_by, runBy]
  | mapSet m o v => rw [run, Run.mapSet_by, runBy]
  | create d carrier => cases carrier <;> rfl
  | _ => rfl

/-- A deed gives what it gives by other calls, unless these are exhausted. -/
theorem runBy_approximates (d : Deed) : Calls.Uniform d.runBy := by
  intro c c' h
  cases d with
  | construct t k args => exact (h.construct t k args).map
  | chain t k o args => exact h.chain t k o args
  | getProperty o name => exact (h.read o name).map
  | setProperty o name v => exact h.write o name v
  | getStatic t name => exact (Calls.getStatic_approximates h t name).map
  | readMember m holder => exact (m.read_approximates h holder).map
  | writeMember m holder v => exact m.write_approximates h holder v
  | create d carrier =>
    cases carrier with
    | none => exact (d.create_approximates h).map
    | some carrier => exact (d.createWith_approximates h carrier).map
  | mapGet m o => exact (Calls.mapGet_approximates h m o).map
  | mapSet m o v => exact Calls.mapSet_approximates h m o v
  | _ => exact .refl _

/-- What a deed is given. A value that is to be written through a mapper is what a hook makes of it. -/
def given (w : World) : Deed → List Value
  | construct _ _ args => args
  | chain _ _ o args => .object o :: args
  | getProperty o _ | getField o _ | copy o | mapGet _ o => [.object o]
  | setProperty o _ v | setField o _ v => [.object o, v]
  | assign v => [v]
  | readMember _ holder => [holder]
  | writeMember _ holder v => [holder, v]
  | setParameters c values => .carrier c :: values.getD []
  | create _ carrier => carrier.toList.map .carrier
  | mapSet m o v => [.object o, m.hooks.inward w.heap v]
  | blank _ | getStatic .. | newCarrier => []

/-- A deed is given what can be come by. -/
def Fits (w : World) (d : Deed) : Prop := ∀ v ∈ d.given w, w.Handed v

end Deed

/-! ## What deeds keep to -/

namespace Regime

open Run

variable {G : Regime} {w : World}

/-- A deed stores only into objects that are open, unless it leaves that to bodies. -/
def Grants (G : Regime) (w : World) : Deed → Prop
  | .chain t _ o _ => G.Receives w t o
  | .setField o _ _ => G.Opens w o
  | .writeMember m holder _ => ∀ {k o}, m.place = .field k → holder = .object o → G.Opens w o
  | .mapSet m o _ => ∀ {k}, m.access = .field k → G.Opens w o
  | _ => True

/-- **Whatever is done** keeps to a regime, if it is given what the regime admits. -/
theorem keeps_runBy {c : Calls} (hG : G.Serves) (hc : G.Governs c) (hw : G.Inv w) {d : Deed}
    (hd : ∀ v ∈ d.given w, G.Admits w v) (hgrants : G.Grants w d) :
    G.Keeps w (d.runBy c) fun _ _ => True := by
  cases d with
  | construct t k args => exact (hc.lawful.construct t k hw hd).discard hw
  | chain t k o args => exact hc.lawful.chain t k hw hgrants fun v hv => hd v (List.mem_cons_of_mem _ hv)
  | getProperty o name => exact (hc.lawful.read name hw (hd _ List.mem_cons_self)).discard hw
  | setProperty o name v =>
    exact hc.lawful.write name hw (hd _ List.mem_cons_self) (hd v (.tail _ List.mem_cons_self))
  | getField o slot => exact (keeps_field hw (hd _ List.mem_cons_self)).discard hw
  | setField o slot v => exact keeps_setField hw hgrants (hd v (.tail _ List.mem_cons_self))
  | copy o => exact (hG.copy hw (hd _ List.mem_cons_self)).discard hw
  | assign v => exact (hG.assign hw (hG.known (hd v List.mem_cons_self))).discard hw
  | blank t => exact (hG.blankValue t hw).discard hw
  | getStatic t name => exact (keeps_getStatic hG hc hw t name).discard hw
  | readMember m holder =>
    exact (keeps_readMember hc.lawful m hw (hd holder List.mem_cons_self)).discard hw
  | writeMember m holder v =>
    exact keeps_writeMember hc.lawful m hw (hd holder List.mem_cons_self) hgrants
      (hd v (.tail _ List.mem_cons_self))
  | newCarrier => exact (keeps_newCarrier hw).discard hw
  | setParameters c values =>
    refine keeps_setParameters hw (hd _ List.mem_cons_self) fun vs hvs v hv => ?_
    obtain rfl := Option.mem_def.mp hvs
    exact hd v (List.mem_cons_of_mem _ hv)
  | create d carrier =>
    cases carrier with
    | none => exact (keeps_create hc.lawful d hw).discard hw
    | some c => exact (keeps_createWith hc.lawful d hw (hd _ List.mem_cons_self)).discard hw
  | mapGet m o => exact (keeps_mapGet hc.lawful hw m (hd _ List.mem_cons_self)).discard hw
  | mapSet m o v =>
    exact keeps_mapSet hG hc hw m (hd _ List.mem_cons_self) hgrants (hd _ (.tail _ List.mem_cons_self))

/-- Where all objects are open, a deed may be done if it is given what is admitted. -/
theorem keeps_given [G.IsOpen] (hG : G.Serves) (hw : G.Inv w) {d : Deed}
    (hd : ∀ v ∈ d.given w, G.Admits w v) (depth : Nat) : G.Keeps w (d.run depth) fun _ _ => True := by
  rw [d.run_eq]
  refine keeps_runBy hG (nested_governed G depth) hw hd ?_
  cases d with
  | chain t k o args => exact .inl (IsOpen.opens (hd _ List.mem_cons_self))
  | setField o slot v => exact IsOpen.opens (hd _ List.mem_cons_self)
  | writeMember m holder v => exact fun _ he => IsOpen.opens (he ▸ hd holder List.mem_cons_self)
  | mapSet m o v => exact fun _ => IsOpen.opens (hd _ List.mem_cons_self)
  | _ => trivial

/-- It leaves alone what statics keep, if it is given what can be come by. -/
theorem keeps_deed (hw : w.Settled) {d : Deed} (hd : d.Fits w) (depth : Nat) :
    guarded.Keeps w (d.run depth) fun _ _ => True :=
  keeps_given guarded_serves hw hd depth

end Regime

/-! ## Worlds that come about -/

/-- One thing after the other happens to a world: something is declared, a registry is opened, asked or
dropped, or a deed is done. What is mentioned can be come by. -/
inductive World.Moves : World → World → Prop
  | declare {w : World} {draft : ClassDraft} {c : ClassId} {schema : Schema}
      (hd : w.schema.declare draft = .ok (c, schema)) (hwritten : draft.IsWritten)
      (hcovers : schema.Covers (w.schema.finish draft))
      (hvalues : (w.schema.finish draft).All w.Handed)
      (hfits : ∀ (r : RegistryId) registry, w.registries[r]? = some registry →
        registry.provider.Within schema ∧ registry.provider.Gives w.Handed schema) :
      Moves w { w with schema }
  | enumerate {w : World} (d : EnumDecl) : Moves w { w with schema := (w.schema.addEnum d).2 }
  | openRegistry {w : World} {registry : Registry} (hcache : registry.cache = [])
      (hcount : registry.synthesized = 0) (hwithin : registry.provider.Within w.schema)
      (hgives : registry.provider.Gives w.Handed w.schema) :
      Moves w { w with registries := w.registries.push registry }
  | request {w w' : World} {r : RegistryId} {registry : Registry} {t : Ty} {e : DescriptorId}
      (hr : w.registries[r]? = some registry) (hd : w.descriptorFor r registry t = .ok (e, w')) :
      Moves w w'
  | map {w w' : World} {r : RegistryId} {registry : Registry} {request : MemberMapper.Request}
      {m : MapperId} (hr : w.registries[r]? = some registry)
      (hm : w.mapperFor r registry request = .ok (m, w')) : Moves w w'
  | dropRegistry {w : World} (r : RegistryId) : Moves w (w.dropRegistry r)
  | deed {w : World} {d : Deed} (depth : Nat) (hd : d.Fits w) : Moves w (d.run depth w).2

namespace World

variable {w w' w'' : World} {o x y : ObjectId} {s : Nat} {v : Value}

/-- A world that another one leads to. -/
def Later : World → World → Prop := ReflTransGen Moves

/-- A world that comes about from nothing. -/
def Reached (w : World) : Prop := Later {} w

/-- What is given within the reach of all is known. -/
theorem fits_of_handed {p : Provider} (hwithin : p.Within w.schema) (hgives : p.Gives w.Handed w.schema) :
    p.Fits w :=
  ⟨hwithin, hgives.imp fun _ hv => hv.known⟩

/-- Nothing is settled. -/
theorem settled_empty : Settled {} where
  sound := Scene.sound_empty
  tidy := by
    refine ⟨Heap.tidy_empty, fun t d hd => ?_⟩
    obtain ⟨c, -, hlt⟩ := Schema.lt_size_of_decl? hd
    exact (Nat.not_lt_zero _ hlt).elim
  formed := ⟨⟨fun h => (nomatch h), fun h => (nomatch h)⟩, fun _ _ h => (nomatch h)⟩
  secluded := by
    refine ⟨fun h => (nomatch h), fun h => (nomatch h), fun h => ?_, fun h => ?_, fun t d hd => ?_,
      fun h => ?_, fun _ h => (nomatch h)⟩
    · obtain ⟨-, _, _, _, -, -, hmem⟩ := h
      cases hmem
    · cases h
    · obtain ⟨c, -, hlt⟩ := Schema.lt_size_of_decl? hd
      exact (Nat.not_lt_zero _ hlt).elim
    · cases h

theorem mapperFor_statics {r : RegistryId} {registry : Registry} {request : MemberMapper.Request}
    {m : MapperId} (h : w.mapperFor r registry request = .ok (m, w')) : w'.statics = w.statics := by
  rw [mapperFor] at h
  split at h
  · cases h
    rfl
  · obtain ⟨made, -, he⟩ := RequestError.bind_eq_ok_iff.mp h
    cases he
    rfl

/-- Where a registry changes in anything but its provider, all still give what can be come by. -/
theorem Secluded.given_modify (h : w.Secluded) {f : Registry → Registry} {r r' : RegistryId}
    {x : Registry} (hx : (if r = r' then (w.registries[r']?).map f else w.registries[r']?) = some x)
    (hf : ∀ registry, (f registry).provider = registry.provider) :
    x.provider.Gives w.Handed w.schema := by
  split at hx
  · obtain ⟨x₀, hx₀, rfl⟩ := Option.map_eq_some_iff.mp hx
    rw [hf]
    exact h.given hx₀
  · exact h.given hx

/-- **Whatever happens** leaves alone what statics keep. -/
theorem Moves.guards (hw : w.Settled) (h : w.Moves w') : w.Guards w' := by
  cases h with
  | @declare draft c schema hd hwritten hcovers hvalues hfits =>
    have hext : w.schema.Extends schema := Schema.extends_declare hd
    have hruns : Scene.Runs w.quiet _ (quiet { w with schema }) :=
      .single (.declare hd hwritten hcovers fun r registry hr =>
        ⟨(hfits r registry hr).1, (hfits r registry hr).2.imp fun _ hv => hv.known⟩)
    have htends : w.Tends { w with schema } :=
      ⟨.refl _, fun _ => ⟨_, hruns⟩, fun _ ht =>
        ⟨ht.heap, ht.literals.declare hd (hvalues.imp fun _ hv => hv.known)⟩⟩
    exact .extend hw htends rfl rfl hext (hw.formed.schema.declare hd)
      (hw.secluded.literals.declare hd hvalues)
      fun hr => (hfits _ _ hr).2
  | enumerate d =>
    have hext := Schema.extends_addEnum w.schema d
    refine .extend hw ⟨.refl _, fun _ => ⟨_, .single (.enumerate (S := w.quiet) d)⟩,
      fun _ ht => ⟨ht.heap, ht.literals.addEnum d⟩⟩ rfl rfl hext (hw.formed.schema.addEnum d)
      (hw.secluded.literals.addEnum d) fun hr => ?_
    exact (hw.secluded.given hr).schema hw.sound.proper.closed hext .inl
  | @openRegistry registry hcache hcount hwithin hgives =>
    have hruns : Scene.Runs w.quiet _ (quiet { w with registries := w.registries.push registry }) :=
      .single (.openRegistry hcache hcount (fits_of_handed hwithin hgives))
    refine .extend hw ⟨.refl _, fun _ => ⟨_, hruns⟩, fun _ ht => ⟨ht.heap, ht.literals⟩⟩ rfl rfl
      (.refl _) hw.formed.schema hw.secluded.literals fun {r x} hr => ?_
    rw [show World.registries _ = w.registries.push registry from rfl, Array.getElem?_push] at hr
    split at hr
    · exact Option.some.inj hr ▸ hgives
    · exact hw.secluded.given hr
  | request hr hd => exact .descriptorFor hw hr hd
  | map hr hm =>
    have hruns : Scene.Runs w.quiet _ (quiet w') := .single (.map hr hm)
    rcases Scene.mapperFor_registries hr hm with rfl | ⟨hsession, hheap, hregistries⟩
    · exact .refl _
    · have hschema : w'.schema = w.schema := congrArg Session.schema hsession
      have hprovider : ∀ {r' : RegistryId} {x}, w'.registries[r']? = some x →
          x.provider.Gives w.Handed w.schema := by
        intro r' x hx
        rw [hregistries] at hx
        exact hw.secluded.given_modify hx fun _ => rfl
      refine .extend hw ⟨hheap ▸ .refl _, fun _ => ⟨_, hruns⟩, fun _ ht => ⟨hheap ▸ ht.heap, ?_⟩⟩ hheap
        (mapperFor_statics hm) (hschema ▸ .refl _) (hschema ▸ hw.formed.schema)
        (hschema ▸ hw.secluded.literals)
        (hschema ▸ hprovider)
      rw [hheap, hschema]
      exact ht.literals
  | dropRegistry r =>
    have hruns : Scene.Runs w.quiet _ (quiet (w.dropRegistry r)) := .single (.dropRegistry r)
    refine .extend hw ⟨.refl _, fun _ => ⟨_, hruns⟩, fun _ ht => ⟨ht.heap, ht.literals⟩⟩ rfl rfl
      (.refl _) hw.formed.schema hw.secluded.literals fun {r' x} hx => ?_
    rw [World.dropRegistry, Array.getElem?_modify] at hx
    exact hw.secluded.given_modify hx fun _ => rfl
  | deed depth hd => exact (Regime.keeps_deed hw hd depth).1

theorem Later.guards (hw : w.Settled) (h : w.Later w') : w.Guards w' := by
  induction h with
  | refl => exact .refl w
  | tail _ hm ih => exact ih.trans (hm.guards (ih.settled hw))

theorem Reached.settled (h : w.Reached) : w.Settled := (Later.guards settled_empty h).settled settled_empty

end World

/-! ## Writes -/

/-- A setter that is run on an object stores into slots of an object, if it does anything. -/
inductive World.Sets (w : World) : Setter → ObjectId → ObjectId → (Nat → Prop) → Prop
  | slot {o : ObjectId} (k : Nat) : Sets w (.slot k) o o (· = k)
  | slotOf {o : ObjectId} (k : Nat) (t : Ty) : Sets w (.slotOf k t) o o (· = k)
  | wrapped {o : ObjectId} (κ : Kind) :
      Sets w (.wrapped κ) o o fun j => j = Nullable.valueSlot ∨ j = Nullable.presenceSlot
  /-- Into a field of the object in a slot. -/
  | field {o x : ObjectId} {k j : Nat} {m : ValueMember} (t : Ty)
      (hx : w.heap.field? o k = some (.object x)) (hm : m.place = .field j) :
      Sets w (.through k m t) o x (· = j)
  /-- By a property of the object in a slot. -/
  | property {o x y : ObjectId} {k : Nat} {m : ValueMember} {r n : Bool} {g : Setter} {P : Nat → Prop}
      (t : Ty) (hx : w.heap.field? o k = some (.object x)) (hm : m.place = .property r n)
      (hg : w.schema.setterFor (w.classOf x) m.name = .ok g) (h : Sets w g x y P) :
      Sets w (.through k m t) o y P

/-- A mapper writes without running bodies of users: it converts, or makes a nullable wrapper. -/
inductive MemberWriter.IsBuiltIn (s : Schema) : MemberWriter → Prop
  | scalar (κ : Kind) : IsBuiltIn s (.scalar κ)
  | nullable {n : ClassId} {type : String} {κ : Kind} {settable : Bool}
      (hn : s.class? n = some (Nullable.decl type κ settable)) : IsBuiltIn s (.nullable κ 0 (.cls n))

/-- A deed stores into slots of an object, if it does anything. It writes a field, a property that is not
written by a body of a user, a member of a wrapper, or such a member through a mapper. -/
inductive Deed.Puts (w : World) : Deed → ObjectId → (Nat → Prop) → Prop
  | field (y : ObjectId) (k : Nat) (v : Value) : Puts w (.setField y k v) y (· = k)
  | property {o y : ObjectId} {name : String} {g : Setter} {P : Nat → Prop} (v : Value)
      (hg : w.schema.setterFor (w.classOf o) name = .ok g) (h : w.Sets g o y P) :
      Puts w (.setProperty o name v) y P
  | memberField {m : ValueMember} {k : Nat} (y : ObjectId) (v : Value) (hm : m.place = .field k) :
      Puts w (.writeMember m (.object y) v) y (· = k)
  | memberProperty {m : ValueMember} {r n : Bool} {o y : ObjectId} {g : Setter} {P : Nat → Prop}
      (v : Value) (hm : m.place = .property r n)
      (hg : w.schema.setterFor (w.classOf o) m.name = .ok g) (h : w.Sets g o y P) :
      Puts w (.writeMember m (.object o) v) y P
  | mapField {m : MemberMapper} {writer : MemberWriter} {k : Nat} (y : ObjectId) (v : Value)
      (hm : m.writer = some writer) (hb : writer.IsBuiltIn w.schema) (ha : m.access = .field k) :
      Puts w (.mapSet m y v) y (· = k)
  | mapProperty {m : MemberMapper} {writer : MemberWriter} {o y : ObjectId} {g : Setter}
      {P : Nat → Prop} (v : Value) (hm : m.writer = some writer) (hb : writer.IsBuiltIn w.schema)
      (ha : m.access = .property)
      (hg : w.schema.setterFor (w.classOf o) m.member = .ok g) (h : w.Sets g o y P) :
      Puts w (.mapSet m o v) y P

namespace Heap.Overwrites

variable {h h' : Heap} {o : ObjectId} {P Q : Nat → Prop}

theorem refl (ht : h.Tidy) : h.Overwrites h o P := ⟨ht, .refl h, fun _ hi => hi, fun _ => rfl⟩

theorem imp (hw : h.Overwrites h' o P) (hPQ : ∀ k, P k → Q k) : h.Overwrites h' o Q :=
  ⟨hw.tidy, hw.grows, hw.others, fun hk => hw.slots fun hp => hk (hPQ _ hp)⟩

/-- While the objects that are there stay as they are, none of them is overwritten. -/
theorem of_old (ht : h'.Tidy) (hg : h.Grows h')
    (hold : ∀ {a i}, h.object? a = some i → h'.object? a = some i) (ho : o < h.objects.size) :
    h.Overwrites h' o P where
  tidy := ht
  grows := hg
  others _ hi := hold hi
  slots _ := by
    obtain ⟨i, hi⟩ := exists_object? ho
    exact field?_congr ((hold hi).trans hi.symm)

end Heap.Overwrites

namespace World

open Run

variable {w w' : World} {o x y : ObjectId} {k : Nat} {v : Value} {g : Setter} {P : Nat → Prop}

/-- A store changes a slot of the object, if it does anything. -/
theorem overwrites_setField (ht : w.heap.Tidy) (hv : v.Known w.heap) :
    w.heap.Overwrites (change (·.setField o k v) w).2.heap o (· = k) := by
  rw [change_run]
  cases hs : w.setField o k v with
  | error e => exact .refl ht
  | ok w' =>
    obtain ⟨heap, hstore, rfl⟩ := setField_eq_ok_iff.mp hs
    exact (Heap.store_spec ht hv hstore).1

/-- What a check lets pass is what goes on. -/
theorem overwrites_check {α : Type} {q : World → Except Fault α} {f : α → Run Unit}
    (ht : w.heap.Tidy) (hf : ∀ a, q w = .ok a → w.heap.Overwrites (f a w).2.heap y P) :
    w.heap.Overwrites ((check q >>= f) w).2.heap y P := by
  rw [bind_run, check_run]
  cases hq : q w with
  | error e => exact .refl ht
  | ok a => exact hf a hq

theorem overwrites_present (ht : w.heap.Tidy) (hv : v.Known w.heap) (κ : Kind) :
    w.heap.Overwrites (present κ o v w).2.heap o
      fun j => j = Nullable.valueSlot ∨ j = Nullable.presenceSlot := by
  refine overwrites_check ht fun u hu => ?_
  obtain rfl := Schema.eq_of_cast hu
  have hfirst := overwrites_setField (o := o) (k := Nullable.valueSlot) ht hv
  rw [bind_run]
  cases hs : change (·.setField o Nullable.valueSlot u) w with
  | mk r w₁ =>
    rw [hs] at hfirst
    cases r with
    | error e => exact hfirst.imp fun _ => .inl
    | ok _ => exact hfirst.trans (overwrites_setField (v := .ofBool true) hfirst.tidy trivial)

/-- A property is written by the setter that dispatch finds, unless calls are nested too deep. -/
theorem overwrites_write {name : String} (ht : w.heap.Tidy)
    (hg : w.schema.setterFor (w.classOf o) name = .ok g)
    (hrun : ∀ depth, w.heap.Overwrites (g.run (Calls.nested depth) o v w).2.heap y P) (depth : Nat) :
    w.heap.Overwrites ((Calls.nested depth).write o name v w).2.heap y P := by
  cases depth with
  | zero => exact .refl ht
  | succ depth =>
    refine overwrites_check ht fun g' hg' => ?_
    obtain rfl := Except.ok.inj (hg.symm.trans hg')
    exact hrun depth

/-- A setter stores where it is said to. -/
theorem Sets.overwrites (h : w.Sets g o y P) (ht : w.heap.Tidy) (hv : v.Known w.heap) (depth : Nat) :
    w.heap.Overwrites (g.run (Calls.nested depth) o v w).2.heap y P := by
  induction h generalizing depth with
  | slot k => exact overwrites_setField ht hv
  | slotOf k t =>
    refine overwrites_check ht fun u hu => ?_
    obtain rfl := Schema.eq_of_cast hu
    exact overwrites_setField ht hv
  | wrapped κ => exact overwrites_present ht hv κ
  | @field o x k j m t hx hm =>
    refine overwrites_check ht fun u hu => ?_
    obtain rfl := Schema.eq_of_cast hu
    refine overwrites_check ht fun u hx' => ?_
    obtain rfl := Option.some.inj (hx.symm.trans (field_eq_ok_iff.mp hx'))
    rw [ValueMember.write, hm]
    exact overwrites_setField ht hv
  | @property o x y k m r n g P t hx hm hg h ih =>
    refine overwrites_check ht fun u hu => ?_
    obtain rfl := Schema.eq_of_cast hu
    refine overwrites_check ht fun u hx' => ?_
    obtain rfl := Option.some.inj (hx.symm.trans (field_eq_ok_iff.mp hx'))
    rw [ValueMember.write, hm]
    exact overwrites_write ht hg ih depth

/-- It stores into an object that is there. -/
theorem Sets.lt_size (h : w.Sets g o y P) (ht : w.heap.Tidy) (ho : o < w.heap.objects.size) :
    y < w.heap.objects.size := by
  induction h with
  | slot k => exact ho
  | slotOf k t => exact ho
  | wrapped κ => exact ho
  | field t hx hm => exact ht.known hx
  | property t hx hm hg h ih => exact ih (ht.known hx)

/-- It goes on to store there, as long as the objects that are there stay as they are. -/
theorem Sets.mono (h : w.Sets g o y P) (ht : w.heap.Tidy) (hschema : w'.schema = w.schema)
    (hold : ∀ {a i}, w.heap.object? a = some i → w'.heap.object? a = some i) : w'.Sets g o y P := by
  have hfield : ∀ {o k v}, w.heap.field? o k = some v → w'.heap.field? o k = some v := by
    intro o k v hf
    obtain ⟨i, hi, hk⟩ := Heap.field?_eq_some_iff.mp hf
    exact Heap.field?_eq_some_iff.mpr ⟨i, hold hi, hk⟩
  induction h with
  | slot k => exact .slot k
  | slotOf k t => exact .slotOf k t
  | wrapped κ => exact .wrapped κ
  | field t hx hm => exact .field t (hfield hx) hm
  | @property o x y k m r n g P t hx hm hg h ih =>
    obtain ⟨i, hi, hclass⟩ := classOf_of_known (ht.known hx)
    refine .property t (hfield hx) hm ?_ ih
    rwa [hschema, classOf_eq (hold hi), ← hclass]

/-- An observer that sees a value changes neither schema nor heap. -/
theorem notice_run (w : World) (m : MemberMapper) (event : Picture → Event) (v : Value) :
    ∃ w', notice m event v w = (.ok (), w') ∧ w'.schema = w.schema ∧ w'.heap = w.heap := by
  rw [notice]
  split
  · exact ⟨_, rfl, rfl, rfl⟩
  · exact ⟨w, rfl, rfl, rfl⟩

theorem requireInstance_run (w : World) (o : ObjectId) (t : Ty) : requireInstance o t w =
    if w.isInstance o t then (.ok (), w)
    else (.error (.fault (.typeMismatch (w.schema.name t) (w.className o))), w) := by
  rw [requireInstance, get_bind]
  cases w.isInstance o t <;> rfl

/-- What a mapper stores is made while the objects that are there stay as they are. -/
theorem wrap_isBuiltIn {writer : MemberWriter} (hb : writer.IsBuiltIn w.schema) (hw : w.Settled)
    (hv : v.Known w.heap) (depth : Nat) : ∃ r w₁, wrap depth writer v w = (r, w₁) ∧
      w₁.schema = w.schema ∧ ∀ {a i}, w.heap.object? a = some i → w₁.heap.object? a = some i := by
  cases hb with
  | scalar κ =>
    rw [show wrap depth (.scalar κ) v = attempt fun w => w.schema.convert w.heap v κ from rfl,
      attempt_run]
    cases w.schema.convert w.heap v κ with
    | error f => exact ⟨_, w, rfl, rfl, id⟩
    | ok u => exact ⟨_, w, rfl, rfl, id⟩
  | nullable hn => exact wrap_old hn hw hv depth

/-- A member is written once there is what to store. -/
theorem overwrites_mapSet {m : MemberMapper} {writer : MemberWriter} {depth : Nat} (hw : w.Settled)
    (hv : w.Handed (m.hooks.inward w.heap v)) (hm : m.writer = some writer)
    (hb : writer.IsBuiltIn w.schema) (hy : y < w.heap.objects.size)
    (hstore : ∀ {w₁ : World} {u : Value}, w₁.Settled → w₁.schema = w.schema →
      (∀ {a i}, w.heap.object? a = some i → w₁.heap.object? a = some i) → u.Known w₁.heap →
        w₁.heap.Overwrites (storeMember depth m o u w₁).2.heap y P) :
    w.heap.Overwrites (mapSet depth m o v w).2.heap y P := by
  rw [mapSet_eq hm, bind_run, requireInstance_run]
  split
  · next heq =>
    split at heq
    · cases heq
      obtain ⟨w₁, hw₁, hschema, hheap⟩ := notice_run w m .inward v
      have hguards₁ : w.Guards w₁ := by
        have hkeeps := (Regime.keeps_notice (G := .guarded) hw m .inward v).1
        rwa [hw₁] at hkeeps
      have hsettled₁ := hguards₁.settled hw
      have hv₁ : w₁.Handed (m.hooks.inward w₁.heap v) := hheap.symm ▸ hguards₁.handed hv
      rw [bind_of_ok hw₁, ask_bind]
      obtain ⟨r, w₂, hwrap, hschema₂, hold⟩ :=
        wrap_isBuiltIn (hschema.symm ▸ hb) hsettled₁ hv₁.known depth
      have hkeeps := Regime.keeps_wrap Regime.guarded_serves (Regime.nested_governed .guarded depth)
        hsettled₁ writer hv₁
      rw [← Run.wrap_by, Regime.Keeps, hwrap] at hkeeps
      obtain ⟨hguards₂, hhanded⟩ := hkeeps
      have hsettled₂ := hguards₂.settled hsettled₁
      rw [hheap] at hold
      have hmade : w.heap.Overwrites w₂.heap y P :=
        .of_old hsettled₂.tidy.heap (hguards₁.trans hguards₂).loosens.grows hold hy
      cases r with
      | error e =>
        rw [bind_of_error hwrap]
        exact hmade
      | ok u =>
        rw [bind_of_ok hwrap]
        have hstored := hstore hsettled₂ (hschema₂.trans hschema) hold (hhanded u rfl).known
        exact (hmade.trans hstored).imp fun _ h => h.elim id id
    · cases heq
  · next heq =>
    split at heq
    · cases heq
    · cases heq
      exact .refl hw.tidy.heap

end World

/-- **A deed stores where it is said to**, and changes no other object. -/
theorem Deed.Puts.overwrites {w : World} {d : Deed} {y : ObjectId} {P : Nat → Prop} (h : d.Puts w y P)
    (hw : w.Settled) (hd : d.Fits w) (depth : Nat) :
    w.heap.Overwrites (d.run depth w).2.heap y P := by
  have ht := hw.tidy.heap
  cases h with
  | field y k v => exact World.overwrites_setField ht (hd v (.tail _ List.mem_cons_self)).known
  | property v hg h =>
    have hv := (hd v (.tail _ List.mem_cons_self)).known
    exact World.overwrites_write ht hg (h.overwrites ht hv) depth
  | @memberField m k y v hm =>
    show w.heap.Overwrites (m.write (Calls.nested depth) (.object y) v w).2.heap y _
    rw [ValueMember.write, hm]
    exact World.overwrites_setField ht (hd v (.tail _ List.mem_cons_self)).known
  | @memberProperty m r n o y g P v hm hg h =>
    have hv := (hd v (.tail _ List.mem_cons_self)).known
    show w.heap.Overwrites (m.write (Calls.nested depth) (.object o) v w).2.heap y _
    rw [ValueMember.write, hm]
    exact World.overwrites_write ht hg (h.overwrites ht hv) depth
  | @mapField m writer k y v hm hb ha =>
    have hy := (hd _ List.mem_cons_self).known
    have hv := hd _ (.tail _ List.mem_cons_self)
    refine World.overwrites_mapSet hw hv hm hb hy fun {w₁ u} hw₁ _ _ hu => ?_
    rw [Run.storeMember, ha]
    exact World.overwrites_setField hw₁.tidy.heap hu
  | @mapProperty m writer o y g P v hm hb ha hg h =>
    have ho := (hd _ List.mem_cons_self).known
    have hv := hd _ (.tail _ List.mem_cons_self)
    refine World.overwrites_mapSet hw hv hm hb (h.lt_size ht ho) fun {w₁ u} hw₁ hschema hold hu => ?_
    obtain ⟨i, hi, hclass⟩ := World.classOf_of_known ho
    have hg₁ : w₁.schema.setterFor (w₁.classOf o) m.member = .ok g := by
      rwa [hschema, World.classOf_eq (hold hi), ← hclass]
    rw [Run.storeMember, ha]
    exact World.overwrites_write hw₁.tidy.heap hg₁
      ((h.mono ht hschema hold).overwrites hw₁.tidy.heap hu) depth

/-! ## Fields and what they hold -/

/-- A deed stores somewhere else than into a slot of an object: not into the slot, and not into what it
holds by value. -/
inductive World.Elsewhere (o : ObjectId) (s : Nat) : World → World → Prop
  | deed {w : World} {d : Deed} {y : ObjectId} {P : Nat → Prop} (depth : Nat) (hd : d.Fits w)
      (hput : d.Puts w y P) (hslot : y = o → ¬P s)
      (hout : ∀ c, w.heap.field? o s = some c → w.heap.Outside c y) :
      Elsewhere o s w (d.run depth w).2

namespace World

variable {w w₁ w₂ w₃ : World} {o o' x r : ObjectId} {s : Nat} {v c : Value}

theorem Elsewhere.moves (h : Elsewhere o s w w₁) : w.Moves w₁ := by
  cases h with
  | deed depth hd => exact .deed depth hd

/-- The slot holds what it held, with the same contents. -/
theorem Elsewhere.alike (hw : w.Settled) (hc : w.heap.field? o s = some c) (h : Elsewhere o s w w₁) :
    w₁.heap.field? o s = some c ∧ w.heap.Alike w₁.heap c c := by
  cases h with
  | deed depth hd hput hslot hout =>
    have hoverwrites := hput.overwrites hw hd depth
    have hlt : o < w.heap.objects.size := Heap.lt_of_field? hc
    refine ⟨?_, hoverwrites.alike_of_outside hw.tidy.heap (hw.tidy.heap.known hc) (hout c hc)⟩
    rw [hoverwrites.field?_eq hlt fun he => hslot he.symm]
    exact hc

/-- So it does however often something is stored elsewhere. -/
theorem alike_of_elsewhere (hw : w.Settled) (hc : w.heap.field? o s = some c)
    (h : ReflTransGen (Elsewhere o s) w w₁) :
    w₁.Settled ∧ w₁.heap.field? o s = some c ∧ w.heap.Alike w₁.heap c c := by
  induction h with
  | refl => exact ⟨hw, hc, (Heap.Yields.nil hw.tidy.heap).alike hw.tidy.heap (hw.tidy.heap.known hc)⟩
  | tail _ hstep ih =>
    obtain ⟨hw', hc', hsame⟩ := ih
    obtain ⟨hc'', hsame'⟩ := hstep.alike hw' hc'
    exact ⟨(hstep.moves.guards hw').settled hw', hc'', hsame.trans hsame'⟩

/-- A copy that has been made is outside of what a slot holds. -/
theorem outside_of_copy {w' w'' : World} (hw : w'.Settled) (ho : w'.Handed (.object o))
    (hcopy : Run.copy o w' = (.ok o', w'')) (hw₂ : w''.Later w₂) (hc : w₂.heap.field? r s = some c) :
    w₂.heap.Outside c o' := by
  have hyields := Heap.copy_yields hw.tidy.heap ho.known
  have hguards : w'.Guards w'' := by
    have hkeeps := (Regime.keeps_copy hw ho).1
    rwa [hcopy] at hkeeps
  have hlater := Later.guards (hguards.settled hw) hw₂
  obtain ⟨he, rfl⟩ := Run.end_inj.mp hcopy
  obtain rfl : (w'.heap.copy o).1 = o' := Except.ok.inj he
  have hmem : Value.object (w'.heap.copy o).1 ∈ [Value.object (w'.heap.copy o).1] :=
    List.mem_singleton.mpr rfl
  have hlt := hyields.known _ hmem
  cases hb : (w'.heap.copy o).2.isByValue (.object (w'.heap.copy o).1) with
  | false =>
    refine Heap.outside_of_shared ?_
    rw [hlater.loosens.grows.isByValue_eq hlt]
    exact hb
  | true =>
    exact Heap.outside_of_loose hc (hlater.loosens.loose (hyields.loose _ hmem hb) hlt hb)

/-- **An object that is held by value belongs to one field**, and to none of its own. A field into which
a value is stored holds what has the contents of the value. At any later time, what was there before,
copies of the holder, and whatever is reached from outside without the field is outside of what the
field holds. As long as something is stored elsewhere only, the contents of the field stay. -/
theorem fields_own_their_values (hw : w.Reached) :
    (∀ {a b y j k}, w.heap.isByValue (.object y) = true → w.heap.field? a j = some (.object y) →
      w.heap.field? b k = some (.object y) → a = b ∧ j = k) ∧
    (∀ x, ¬TransGen w.heap.Holds x x) ∧
    ∀ {o s v w₁}, w.Handed (.object o) → w.Handed v → w.setField o s v = .ok w₁ →
      (∃ c, w₁.heap.field? o s = some c ∧ w.heap.Alike w₁.heap v c) ∧
      ∀ {w₂ c}, w₁.Later w₂ → w₂.heap.field? o s = some c →
        (∀ x < w.heap.objects.size, w₂.heap.Outside c x) ∧
        (∀ {w' w'' o'}, w₁.Later w' → Run.copy o w' = (.ok o', w'') → w''.Later w₂ →
          w₂.heap.Outside c o') ∧
        (∀ {r x}, w₂.heap.Outside c r → w₂.heap.Reaches o s r x → w₂.heap.Outside c x) ∧
        ∀ {w₃}, ReflTransGen (Elsewhere o s) w₂ w₃ →
          w₃.heap.field? o s = some c ∧ w₂.heap.Alike w₃.heap c c := by
  have hsettled := hw.settled
  have htidy := hsettled.tidy.heap
  refine ⟨fun hb hf hf' => htidy.separate hf hf' hb, htidy.not_transGen_holds, ?_⟩
  intro o s v w₁ ho hv hset
  have hguards : w.Guards w₁ := .setField hsettled ho hv hset
  have hsettled₁ := hguards.settled hsettled
  obtain ⟨heap, hstore, rfl⟩ := setField_eq_ok_iff.mp hset
  obtain ⟨-, u, hu, hsame⟩ := Heap.store_spec htidy hv.known hstore
  refine ⟨⟨u, hu, hsame⟩, fun {w₂ c} hlater hc => ?_⟩
  have hguards₂ := Later.guards hsettled₁ hlater
  have hsettled₂ := hguards₂.settled hsettled₁
  refine ⟨fun x hx => ?_, fun {w' w'' o'} hw' hcopy hw'' => ?_, fun hr hx => ?_, fun h => ?_⟩
  · exact hguards₂.loosens.outside_of_store htidy hsettled₂.tidy.heap hv.known hstore hc hx
  · have hguards' := Later.guards hsettled₁ hw'
    exact outside_of_copy (hguards'.settled hsettled₁) (hguards'.handed (hguards.handed ho)) hcopy hw'' hc
  · exact hsettled₂.tidy.heap.outside_of_reaches hc hr hx
  · exact (alike_of_elsewhere hsettled₂ hc h).2

/-- Something happens, and no object changes. -/
structure Arranges (w w' : World) : Prop where
  moves : w.Moves w'
  heap : w'.heap = w.heap

theorem Arranges.later {w w' : World} (h : ReflTransGen Arranges w w') : w.Later w' :=
  ReflTransGen.mono (fun _ _ => moves) _ _ h

/-- A request does, also if it is refused. -/
theorem arranges_request {w : World} (r : RegistryId) (t : Ty) :
    ReflTransGen Arranges w (w.request r t) := by
  rw [request]
  split
  · exact .refl
  · next registry hr =>
    split
    · next e w' he => exact .single ⟨.request hr he, (descriptorFor_grows he).2⟩
    · exact .refl

theorem later_request {w : World} (r : RegistryId) (t : Ty) : w.Later (w.request r t) :=
  Arranges.later (arranges_request r t)

end World

namespace Scene

/-- Declaring classes with built-in bodies. -/
theorem declare_arranges {s : Schema} {ds : List ClassDraft} (h : CanDeclare s ds)
    (hb : (addDrafts s ds).classes.all ClassDecl.isBuiltIn = true) :
    ReflTransGen World.Arranges { schema := s } { schema := addDrafts s ds } := by
  induction ds generalizing s with
  | nil => exact .refl
  | cons d ds ih =>
    obtain ⟨hoffence, hwritten, hcovers, hrest⟩ := h
    refine .head ⟨.declare (declare_addDrafts hoffence) hwritten hcovers
      (ClassDecl.all_of_isBuiltIn (isBuiltIn_head hb)) fun _ _ hr => (nomatch hr), rfl⟩ (ih hrest hb)

theorem declare_reached {s : Schema} {ds : List ClassDraft} (hs : World.Reached { schema := s })
    (h : CanDeclare s ds) (hb : (addDrafts s ds).classes.all ClassDecl.isBuiltIn = true) :
    World.Reached { schema := addDrafts s ds } :=
  hs.trans (World.Arranges.later (declare_arranges h hb))

/-- Construction parameters that are attached to properties can be come by if they are literals. -/
theorem attributes_fit (w : World) {schema : Schema} (hclosed : schema.Closed)
    (hliteral : ∀ d ∈ schema.classes.toList, ∀ q ∈ d.properties, ∀ vs ∈ q.parameters?, ∀ v ∈ vs,
      v.isLiteral = true) :
    Provider.attributes.Within schema ∧ Provider.attributes.Gives w.Handed schema := by
  refine ⟨Provider.attributes_within hclosed, Provider.attributes_gives fun {c d} hd q hq vs hvs v hv => ?_⟩
  have hmem : d ∈ schema.classes.toList := Array.mem_toList_iff.mpr (Array.mem_of_getElem? hd)
  exact .of_isLiteral (hliteral d hmem q hq vs hvs v hv)

section
variable {drafts : List ClassDraft} (h : CanDeclare {} drafts) (hclosed : (addDrafts {} drafts).Closed)
variable (hliteral : ∀ d ∈ (addDrafts {} drafts).classes.toList, ∀ q ∈ d.properties,
  ∀ vs ∈ q.parameters?, ∀ v ∈ vs, v.isLiteral = true)
variable (hb : (addDrafts {} drafts).classes.all ClassDecl.isBuiltIn = true)
include h hclosed hliteral hb

/-- A world of classes with built-in bodies, in which a registry has been asked for a type. -/
theorem asked_arranges (t : Ty) : ReflTransGen World.Arranges {} (asked drafts t) := by
  obtain ⟨hwithin, hgives⟩ := attributes_fit { schema := addDrafts {} drafts } hclosed hliteral
  have hopened : ReflTransGen World.Arranges {} (opened drafts).world :=
    (declare_arranges h hb).tail ⟨.openRegistry rfl rfl hwithin hgives, rfl⟩
  exact hopened.trans (World.arranges_request 0 t)

theorem asked_reached (t : Ty) : (asked drafts t).Reached :=
  World.Arranges.later (asked_arranges h hclosed hliteral hb t)

end

/-- The registry that has been asked gives what is attached to properties. -/
theorem provider_asked {drafts : List ClassDraft} {t : Ty} {r : RegistryId} {registry : Registry}
    (hr : (asked drafts t).registries[r]? = some registry) : registry.provider = .attributes := by
  have hopened : ∀ {x : Registry}, (opened drafts).world.registries[r]? = some x →
      x.provider = .attributes := by
    intro x hx
    obtain rfl := List.mem_singleton.mp (Array.mem_toList_iff.mpr (Array.mem_of_getElem? hx))
    rfl
  rw [asked, World.request] at hr
  split at hr
  · exact hopened hr
  · next registry' hr' =>
    split at hr
    · next e w he =>
      obtain ⟨x, hx, hprovider⟩ := World.descriptorFor_providers hr' he hr
      exact hprovider.trans (hopened hx)
    · exact hopened hr

/-- Drafts of a class of objects that are held by value, and of a class with a field for one. -/
def parcelDrafts : List ClassDraft :=
  [{ name := "Parcel.Size", isValueType := true
     members := [.field "Height" (.scalar (.integer .i32)) true, .defaultConstructor] },
   { name := "Parcel.Box"
     members := [.field "Inner" (.cls 0) true, .defaultConstructor] }]

/-- The world with a size and a box. -/
def parcel : World :=
  let w : World := { schema := addDrafts {} parcelDrafts }
  ((Deed.construct (.cls 1) 0 []).run 4 ((Deed.construct (.cls 0) 0 []).run 4 w).2).2

theorem parcel_canDeclare : CanDeclare {} parcelDrafts := by decide +kernel

theorem parcel_reached : parcel.Reached := by
  have hdeclared := declare_reached .refl parcel_canDeclare (by decide +kernel)
  have hnothing : ∀ {w : World} {t : Ty}, (Deed.construct t 0 []).Fits w := fun _ hv => nomatch hv
  exact (hdeclared.tail (.deed 4 hnothing)).tail (.deed 4 hnothing)

/-- The height that is stored. -/
def parcelHeight : Value := .scalar (.integer (.ofInt32 7))

/-- The size has been stored into the box. -/
def parcelFilled : World := (Run.setField 1 0 (.object 0) parcel).2

/-- The size is stored into the box and changed then. The box keeps what it was given. -/
theorem fields_own_their_values_parcel :
    parcel.setField 1 0 (.object 0) = .ok parcelFilled ∧ ∃ w c,
      Run.setField 0 0 parcelHeight parcelFilled = (.ok (), w) ∧
      w.heap.field? 0 0 = some parcelHeight ∧ w.heap.field? 1 0 = some c ∧
      parcel.heap.Alike parcelFilled.heap (.object 0) c ∧ parcelFilled.heap.Alike w.heap c c := by
  have hfree : ∀ {w : World} {v}, w.statics = [] → v.Known w.heap → w.Handed v := by
    refine fun hs hv => ⟨hv, fun _ hk => ?_⟩
    obtain ⟨-, _, _, _, -, -, hmem⟩ := hk
    rw [hs] at hmem
    cases hmem
  have hset : parcel.setField 1 0 (.object 0) = .ok parcelFilled := rfl
  have hsize : 1 < parcel.heap.objects.size := by decide +kernel
  have hsize' : 0 < parcelFilled.heap.objects.size := by decide +kernel
  obtain ⟨-, -, hstore⟩ := World.fields_own_their_values parcel_reached
  obtain ⟨⟨c, hc, hsame⟩, hlater⟩ := hstore (hfree (v := .object 1) rfl hsize)
    (hfree (v := .object 0) rfl (Nat.zero_lt_of_lt hsize)) hset
  obtain ⟨hold, -, -, hwrites⟩ := hlater .refl hc
  have hfits : (Deed.setField 0 0 parcelHeight).Fits parcelFilled := by
    intro v hv
    rcases List.mem_pair.mp hv with rfl | rfl
    · exact hfree rfl hsize'
    · exact .of_isLiteral rfl
  have helsewhere : World.Elsewhere 1 0 parcelFilled _ :=
    .deed 0 hfits (.field 0 0 parcelHeight) (fun he => nomatch he) fun c' hc' => by
      obtain rfl := Option.some.inj (hc.symm.trans hc')
      exact hold 0 (Nat.zero_lt_of_lt hsize)
  obtain ⟨hc₂, hsame₂⟩ := hwrites (.single helsewhere)
  exact ⟨hset, _, c, rfl, by decide +kernel, hc₂, hsame, hsame₂⟩

end Scene

end RecordForge
