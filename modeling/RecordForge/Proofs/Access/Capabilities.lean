import RecordForge.Proofs.Access.Writes
import RecordForge.Proofs.Layout.Slots

/-!
# What members can do, and what dispatch does

Whether a member can be read or written is told from one declaration of its property, the one that is
found for its name. Dispatch passes over declarations without the accessor and goes on to the bases. So
the two agree unless the declaration that was found leaves out an accessor that a class of the lineage
declares elsewhere (`Schema.Omits`): then the member counts as one that cannot be read or written, and
dispatch succeeds all the same (`Scene.capabilities_dispatched`).
-/

namespace RecordForge

namespace Schema

variable {s : Schema} {t a : Ty} {name missing : String} {α : Type} {p : PropertyDecl}
variable {part : PropertyDecl → Option (Accessor α)}

/-- All accessors that a class and its bases declare have bodies. -/
def Bodied (s : Schema) (t : Ty) : Prop :=
  ∀ x ∈ s.lineage t, ∀ p ∈ x.2.properties, p.isAbstract = false

/-- A class or one of its bases declares an accessor of a property. -/
def Offers (s : Schema) (part : PropertyDecl → Option (Accessor α)) (t : Ty) (name : String) : Prop :=
  ∃ x ∈ s.lineage t, ∃ p ∈ x.2.properties, p.name = name ∧ (part p).isSome = true

/-- A declaration of a property is without an accessor that a class or one of its bases declares. -/
def Omits (s : Schema) (part : PropertyDecl → Option (Accessor α)) (t : Ty) (p : PropertyDecl) : Prop :=
  part p = none ∧ s.Offers part t p.name

/-- No class repeats the name of a property. -/
def Distinct (s : Schema) : Prop :=
  ∀ t d, s.decl? t = some d → (d.properties.map PropertyDecl.name).Nodup

/-- Dispatch finds an accessor exactly if one is declared. -/
theorem Distinct.accessor?_isSome_iff (hs : s.Distinct) :
    (s.accessor? part t name).isSome = true ↔ s.Offers part t name := by
  rw [accessor?, List.findSome?_isSome_iff]
  refine exists_congr fun x => and_congr_right fun hx => ?_
  have hnames := hs _ _ (decl?_of_mem_lineage hx)
  constructor
  · intro h
    obtain ⟨b, hb⟩ := Option.isSome_iff_exists.mp h
    obtain ⟨p, hp, hpart⟩ := Option.bind_eq_some_iff.mp hb
    have hname := List.find?_some hp
    exact ⟨p, List.mem_of_find?_eq_some hp, eq_of_beq hname, by rw [hpart]; rfl⟩
  · rintro ⟨p, hp, rfl, hpart⟩
    show (Option.bind (x.2.properties.find? fun q => q.name == p.name) part).isSome = true
    rwa [find?_of_nodup hnames hp, Option.bind_some]

/-- An accessor that has a body wherever it is declared is dispatched exactly if it is declared. -/
theorem Distinct.bodyOf_isOk_iff (hs : s.Distinct)
    (hbody : ∀ x ∈ s.lineage t, ∀ p ∈ x.2.properties, part p ≠ some .abstract) :
    (∃ b, s.bodyOf t name missing (s.accessor? part t name) = .ok b) ↔ s.Offers part t name := by
  rw [← hs.accessor?_isSome_iff]
  constructor
  · rintro ⟨b, hb⟩
    rw [bodyOf_eq_ok_iff.mp hb]
    rfl
  · intro h
    obtain ⟨found, hfound⟩ := Option.isSome_iff_exists.mp h
    cases found with
    | body b => exact ⟨b, bodyOf_eq_ok_iff.mpr hfound⟩
    | abstract =>
      obtain ⟨x, hx, hbind⟩ := List.exists_of_findSome?_eq_some hfound
      obtain ⟨p, hp, habstract⟩ := Option.bind_eq_some_iff.mp hbind
      exact absurd habstract (hbody x hx p (List.mem_of_find?_eq_some hp))

theorem Bodied.getter (h : s.Bodied t) :
    ∀ x ∈ s.lineage t, ∀ p ∈ x.2.properties, p.getter ≠ some .abstract := by
  intro x hx p hp habstract
  have hconcrete := h x hx p hp
  rw [PropertyDecl.isAbstract, habstract] at hconcrete
  cases hconcrete

theorem Bodied.setter (h : s.Bodied t) :
    ∀ x ∈ s.lineage t, ∀ p ∈ x.2.properties, p.setter ≠ some .abstract := by
  intro x hx p hp habstract
  have hconcrete := h x hx p hp
  rw [PropertyDecl.isAbstract, habstract] at hconcrete
  simp [Accessor.isAbstract] at hconcrete

/-- **A declaration and dispatch.** A declaration of the lineage has an accessor exactly if some
declaration has it and this one does not leave it out. -/
theorem isSome_iff_of_offers {x : Ty × ClassDecl} (hx : x ∈ s.lineage t) (hp : p ∈ x.2.properties) :
    (part p).isSome = true ↔ s.Offers part t p.name ∧ ¬s.Omits part t p := by
  constructor
  · intro h
    refine ⟨⟨x, hx, p, hp, rfl, h⟩, fun homits => ?_⟩
    rw [homits.1] at h
    cases h
  · rintro ⟨hoffers, homits⟩
    by_contra hno
    exact homits ⟨Option.not_isSome_iff_eq_none.mp hno, hoffers⟩

/-- The declaration that is found for a name is one of the lineage. -/
theorem exists_of_findProperty? (h : s.findProperty? t name = some (a, p)) :
    ∃ x ∈ s.lineage t, p ∈ x.2.properties ∧ p.name = name := by
  obtain ⟨x, hx, hmap⟩ := List.exists_of_findSome?_eq_some h
  obtain ⟨q, hq, he⟩ := Option.map_eq_some_iff.mp hmap
  obtain ⟨-, rfl⟩ := Prod.mk.inj he
  have hname := List.find?_some hq
  exact ⟨x, hx, List.mem_of_find?_eq_some hq, eq_of_beq hname⟩

/-- A value member that is a property is a public property of the wrapper. -/
theorem publicProperty_of_valueMember? {desired : Ty} {m : ValueMember} {readable writable : Bool}
    (h : s.valueMember? t desired = some m) (hm : m.place = .property readable writable) :
    ∃ a p, (a, p) ∈ s.publicProperties t ∧ p.name = m.name ∧ p.type = m.type ∧
      p.hasGetter = readable ∧ p.hasSetter = writable := by
  rw [valueMember?] at h
  split at h
  · rcases Option.or_eq_some_iff.mp h with h | ⟨-, h⟩
    · obtain ⟨x, -, rfl⟩ := List.mem_map.mp (mem_of_pick h)
      cases hm
    · obtain ⟨⟨a, p⟩, hp, rfl⟩ := List.mem_map.mp (mem_of_pick h)
      obtain ⟨hreadable, hwritable⟩ := Place.property.inj hm
      exact ⟨a, p, hp, rfl, rfl, hreadable, hwritable⟩
  · cases h

end Schema

/-! ## Mappers -/

namespace MemberMapper

variable {s : Schema} {hooks : Hooks} {r : Request} {m : MemberMapper} {a : Ty} {p : PropertyDecl}

/-- A property is a member of its type that can be read and written as its declaration says. -/
theorem member?_property (hkind : r.kind = .property)
    (h : s.findProperty? r.objectType r.member = some (a, p)) :
    ∃ declaring, member? s r = some ⟨p.type, .property, if p.hasGetter then some declaring else none,
      p.hasSetter⟩ := by
  rw [member?, hkind]
  dsimp only
  rw [h]
  exact ⟨_, rfl⟩

/-- The mapper of a property that is to be read can do so if the declaration has a getter. -/
theorem canRead_iff (hm : make s hooks r = .ok m) (hkind : r.kind = .property)
    (h : s.findProperty? r.objectType r.member = some (a, p)) (hreads : r.reads = true) :
    m.canRead = true ↔ p.getter.isSome = true := by
  obtain ⟨declaring, hmember⟩ := member?_property hkind h
  obtain ⟨member, writer, hmember', -, -, rfl⟩ := exists_of_make hm
  obtain rfl := Option.some.inj (hmember'.symm.trans hmember)
  cases hg : p.getter <;> simp [canRead, hreads, PropertyDecl.hasGetter, hg]

/-- The mapper of a property that is to be written can do so if the declaration has a setter, where
the type of the property can be written. -/
theorem canWrite_iff (hm : make s hooks r = .ok m) (hkind : r.kind = .property)
    (h : s.findProperty? r.objectType r.member = some (a, p)) (hwrites : r.writes = true)
    {writer : MemberWriter} (hwriter : writerFor s p.type = .ok (some writer)) :
    m.canWrite = true ↔ p.setter.isSome = true := by
  obtain ⟨declaring, hmember⟩ := member?_property hkind h
  obtain ⟨member, found, hmember', hsome, hnone, rfl⟩ := exists_of_make hm
  obtain rfl := Option.some.inj (hmember'.symm.trans hmember)
  have hsetter : (r.writes && p.hasSetter) = p.setter.isSome := by rw [hwrites]; rfl
  rw [← hsetter, canWrite]
  cases hw : r.writes && p.hasSetter with
  | false => simp [hnone hw]
  | true =>
    have hfound : Except.ok found = Except.ok (some writer) := (hsome hw).symm.trans hwriter
    simp [Except.ok.inj hfound]

/-- There is a mapper for each property whose type gives no offence when it is written. -/
theorem exists_make (hooks : Hooks) (hkind : r.kind = .property)
    (h : s.findProperty? r.objectType r.member = some (a, p))
    (hwriter : ∀ e, writerFor s p.type ≠ .error e) : ∃ m, make s hooks r = .ok m := by
  obtain ⟨declaring, hmember⟩ := member?_property hkind h
  rw [make, hmember]
  dsimp only
  split
  · cases hw : writerFor s p.type with
    | error e => exact absurd hw (hwriter e)
    | ok writer => exact ⟨_, rfl⟩
  · exact ⟨_, rfl⟩

end MemberMapper

/-! ## Wrappers -/

/-- A property that no setter can be found for cannot be written in any object of its class. -/
theorem World.setProperty_missing {w : World} {o : ObjectId} {name : String} {v : Value}
    (h : w.schema.accessor? PropertyDecl.setter (w.classOf o) name = none) (depth : Nat) :
    Run.setProperty (depth + 1) o name v w =
      (.error (.fault (.missingMember (w.className o) ("set_" ++ name))), w) := by
  refine Run.bind_of_error ?_
  rw [Run.check_run, Schema.setterFor, h]
  rfl

/-- Nor can a value member be written that is such a property. -/
theorem ValueMember.write_missing {w : World} (hs : w.schema.Distinct) {F : Ty} {m : ValueMember}
    {readable writable : Bool} (hplace : m.place = .property readable writable)
    (h : ¬w.schema.Offers PropertyDecl.setter F m.name) {o : ObjectId} (ho : w.classOf o = F) (v : Value)
    (depth : Nat) : m.write (Calls.nested (depth + 1)) (.object o) v w =
      (.error (.fault (.missingMember (w.schema.name F) ("set_" ++ m.name))), w) := by
  rw [← hs.accessor?_isSome_iff, Option.not_isSome_iff_eq_none, ← ho] at h
  have hmissing := World.setProperty_missing h depth (v := v)
  rw [write, Run.bind_of_ok (show m.holder (.object o) w = (.ok o, _) from rfl), hplace, ← ho]
  exact hmissing

/-- A wrapper whose member is a property is written through that, unless the member cannot be written:
then the property is left without a setter, or the wrapper is refused if there has to be one. -/
theorem PropertyField.setterShape_eq_through_iff {s : Schema} {f : PropertyField} {m : ValueMember}
    {readable writable : Bool} (hm : f.member = some m)
    (hplace : m.place = .property readable writable) :
    f.setterShape s = .ok (.through m) ↔ writable = true := by
  rw [setterShape, hm]
  dsimp only
  rw [ValueMember.isWritable, hplace]
  cases writable
  · cases f.property.hasSetter <;> simp
  · simp

/-! ## Main result -/

namespace Scene

variable {S : Scene} {t : Ty}

/-- In a scene that comes about, no class repeats the name of a property. -/
theorem distinct_of_runs {told : List Served} (hruns : Runs {} told S) : S.world.schema.Distinct := by
  intro t d hd
  obtain ⟨c, rfl, -⟩ := Schema.lt_size_of_decl? hd
  rcases traced_of_runs hruns c d hd with ⟨draft, hdrafted⟩ | ⟨r, registry, hr, hmakes⟩
  · exact (hdrafted.distinct hd).2.2.1
  · obtain ⟨_, _, _, i, _, -, -, -, -, -, hi, rfl, -⟩ :=
      hmakes.spec ((sound_of_runs hruns).registries hr) hd
    exact hi.nodup_properties

/-- **Capabilities and dispatch.** Let all accessors of a class and its bases have bodies. A mapper of a
property can read it exactly if its getter can be dispatched and the declaration that is found does not
leave out a getter of the bases; the same goes for setters, if the type of the property can be written.
It goes for value members that are properties, too, with the public declaration that they stand for. A
wrapper that is refused or leaves its property without a setter has a declaration that leaves out a
setter, or its value cannot be written in any object of the class. -/
theorem capabilities_dispatched {told : List Served} (hruns : Runs {} told S)
    (hbodied : S.world.schema.Bodied t) :
    let s := S.world.schema
    (∀ {hooks r a p}, r.objectType = t → r.kind = .property →
      s.findProperty? t r.member = some (a, p) →
        ((∀ e, MemberMapper.writerFor s p.type ≠ .error e) →
          ∃ m, MemberMapper.make s hooks r = .ok m) ∧
        ∀ {m}, MemberMapper.make s hooks r = .ok m →
          (r.reads = true → (m.canRead = true ↔
            (∃ g, s.getterFor t r.member = .ok g) ∧ ¬s.Omits PropertyDecl.getter t p)) ∧
          (r.writes = true → (∃ writer, MemberMapper.writerFor s p.type = .ok (some writer)) →
            (m.canWrite = true ↔
              (∃ g, s.setterFor t r.member = .ok g) ∧ ¬s.Omits PropertyDecl.setter t p))) ∧
    ∀ {desired m readable writable}, s.valueMember? t desired = some m →
      m.place = .property readable writable →
        ∃ a p, (a, p) ∈ s.publicProperties t ∧ p.name = m.name ∧ p.type = m.type ∧
          (readable = true ↔
            (∃ g, s.getterFor t m.name = .ok g) ∧ ¬s.Omits PropertyDecl.getter t p) ∧
          (writable = true ↔
            (∃ g, s.setterFor t m.name = .ok g) ∧ ¬s.Omits PropertyDecl.setter t p) ∧
          ∀ {f : PropertyField}, f.fieldType = t → f.member = some m →
            f.setterShape s ≠ .ok (.through m) → s.Omits PropertyDecl.setter t p ∨
              (∀ g, s.setterFor f.fieldType m.name ≠ .ok g) ∧
              ∀ {o v depth}, S.world.classOf o = f.fieldType →
                m.write (Calls.nested (depth + 1)) (.object o) v S.world =
                  (.error (.fault (.missingMember (s.name f.fieldType) ("set_" ++ m.name))),
                    S.world) := by
  have hdistinct := distinct_of_runs hruns
  have hgetter : ∀ {name}, (∃ g, S.world.schema.getterFor t name = .ok g) ↔
      S.world.schema.Offers PropertyDecl.getter t name := hdistinct.bodyOf_isOk_iff hbodied.getter
  have hsetter : ∀ {name}, (∃ g, S.world.schema.setterFor t name = .ok g) ↔
      S.world.schema.Offers PropertyDecl.setter t name := hdistinct.bodyOf_isOk_iff hbodied.setter
  refine ⟨?_, ?_⟩
  · rintro hooks r a p rfl hkind hfound
    obtain ⟨x, hx, hp, hname⟩ := Schema.exists_of_findProperty? hfound
    refine ⟨MemberMapper.exists_make hooks hkind hfound, fun {m} hm => ⟨fun hreads => ?_, ?_⟩⟩
    · rw [MemberMapper.canRead_iff hm hkind hfound hreads, hgetter, ← hname]
      exact Schema.isSome_iff_of_offers hx hp
    · rintro hwrites ⟨writer, hwriter⟩
      rw [MemberMapper.canWrite_iff hm hkind hfound hwrites hwriter, hsetter, ← hname]
      exact Schema.isSome_iff_of_offers hx hp
  · intro desired m readable writable hm hplace
    obtain ⟨a, p, hpublic, hname, htype, rfl, rfl⟩ :=
      Schema.publicProperty_of_valueMember? hm hplace
    obtain ⟨d, hx, hp, -⟩ := Schema.mem_publicProperties hpublic
    refine ⟨a, p, hpublic, hname, htype, ?_, ?_, ?_⟩
    · rw [hgetter, ← hname]
      exact Schema.isSome_iff_of_offers hx hp
    · rw [hsetter, ← hname]
      exact Schema.isSome_iff_of_offers hx hp
    · rintro f rfl hf hshape
      rw [Ne, PropertyField.setterShape_eq_through_iff hf hplace] at hshape
      refine or_iff_not_imp_left.mpr fun homits => ?_
      -- without a setter in its declaration, and none left out, the property has none at all
      have hnone : ¬S.world.schema.Offers PropertyDecl.setter f.fieldType m.name := fun hoffers =>
        hshape ((Schema.isSome_iff_of_offers hx hp).mpr ⟨hname ▸ hoffers, homits⟩)
      exact ⟨fun g hg => hnone (hsetter.mp ⟨g, hg⟩),
        fun {o v depth} ho => m.write_missing hdistinct hplace hnone ho v depth⟩

/-- Drafts of a class with a value that is read and written, of a class below that declares the value
once more, with a getter only, and of an abstract class with a property that is kept in such a value. -/
def signalDrafts : List ClassDraft :=
  [{ name := "Signal.Lamp", members := [.auto valueName (.scalar .text), .defaultConstructor] },
   { name := "Signal.Dimmer", base := some (.cls 0)
     members := [
       .property { name := valueName, type := .scalar .text, getter := some (.body (.slot 0)) },
       .defaultConstructor] },
   { name := "Signal.Board", isAbstract := true
     members := [
       .property { World.forestProperty (.scalar .text) with
         name := "Level", attributes := [.mapType (.cls 1)] },
       .defaultConstructor] }]

/-- The scene in which the classes have been declared and there is a registry. -/
def signal : Scene := opened signalDrafts

/-- A mapper of the value of a dimmer is asked for. -/
def signalRequest : MemberMapper.Request := ⟨.cls 1, valueName, .property, true, true⟩

theorem signal_runs : Runs {} [] signal := by
  have hdeclare : CanDeclare {} signalDrafts := by decide +kernel
  exact opened_runs hdeclare (by decide) (by decide)

theorem signal_bodied : signal.world.schema.Bodied (.cls 1) := by
  have hall : (signal.world.schema.lineage (.cls 1)).all
      (fun x => x.2.properties.all fun p => !p.isAbstract) = true := by decide +kernel
  intro x hx p hp
  have hconcrete := List.all_eq_true.mp (List.all_eq_true.mp hall x hx) p hp
  simpa using hconcrete

/-- The value of a dimmer can be read. As its mapper cannot write it, though a setter can be dispatched,
its declaration leaves out a setter. -/
theorem capabilities_dispatched_signal : ∃ a p m,
    signal.world.schema.findProperty? (.cls 1) valueName = some (a, p) ∧
      MemberMapper.make signal.world.schema {} signalRequest = .ok m ∧ m.canRead = true ∧
      m.canWrite = false ∧ signal.world.schema.Omits PropertyDecl.setter (.cls 1) p := by
  obtain ⟨hmappers, -⟩ := capabilities_dispatched signal_runs signal_bodied
  obtain ⟨a, p, hfound, htype, hgetter⟩ : ∃ a p,
      signal.world.schema.findProperty? (.cls 1) valueName = some (a, p) ∧
        p.type = .scalar .text ∧ p.getter = some (.body (.slot 0)) := ⟨_, _, rfl, rfl, rfl⟩
  obtain ⟨m, hm, hdenied⟩ : ∃ m, MemberMapper.make signal.world.schema {} signalRequest = .ok m ∧
      m.canWrite = false := ⟨_, rfl, rfl⟩
  have hwriter : MemberMapper.writerFor signal.world.schema p.type =
      .ok (some (.scalar .text)) := by
    rw [htype]
    rfl
  obtain ⟨hreads, hwrites⟩ := (hmappers (r := signalRequest) rfl rfl hfound).2 hm
  refine ⟨a, p, m, hfound, hm, (hreads rfl).mpr ⟨⟨.slot 0, rfl⟩, fun homits => ?_⟩, hdenied, ?_⟩
  · cases hgetter.symm.trans homits.1
  · by_contra homits
    have hallowed := (hwrites rfl ⟨_, hwriter⟩).mpr ⟨⟨.slot 0, rfl⟩, homits⟩
    cases hdenied.symm.trans hallowed

/-- So capabilities do not agree with dispatch. The value of a dimmer is written by the setter of a lamp,
but a mapper cannot write it, and a board, whose level would be kept in a dimmer, is refused. -/
theorem signal_denies_setter :
    signal.world.schema.Bodied (.cls 1) ∧
      signal.world.schema.setterFor (.cls 1) valueName = .ok (.slot 0) ∧
      ((MemberMapper.make signal.world.schema {} signalRequest).map MemberMapper.canWrite).toOption =
        some false ∧
      signal.world.schema.valueMember? (.cls 1) (.scalar .text) =
        some ⟨valueName, .scalar .text, .property true false⟩ ∧
      (signal.world.descriptorFor 0 World.forestRegistry (.cls 2)).map Prod.fst =
        .error (.readOnlyValueMember "Dimmer" valueName "Level" "Board") ∧
      let w := ((Deed.construct (.cls 1) 0 []).run 8 signal.world).2
      ∃ w', Run.setProperty 8 0 valueName (.scalar (.text "low")) w = (.ok (), w') ∧
        (Run.getProperty 8 0 valueName w').1 = .ok (.scalar (.text "low")) := by
  refine ⟨signal_bodied, rfl, rfl, by decide +kernel, ?_, _, rfl, rfl⟩
  decide +kernel

end Scene

end RecordForge
