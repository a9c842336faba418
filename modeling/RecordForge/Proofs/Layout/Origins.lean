import RecordForge.Proofs.Access.Deeds
import RecordForge.Proofs.Access.Places
import RecordForge.Proofs.Schema.Drafts

/-!
# The layouts of classes

A class adds fields of its own behind those of its base (`ClassDecl.Adds`). Which fields these are
depends on where the class comes from: a class of a draft adds those that the draft declares, and an
implementation adds one for each of its properties (`World.Origin`).
-/

namespace RecordForge

/-! ## What a class adds -/

/-- The fields that a class has from its base. -/
def Schema.inherited (s : Schema) (t : Ty) : List FieldDecl := (s.base? t).elim [] s.fields

/-- A class adds fields of its own behind those that it inherits. -/
structure ClassDecl.Adds (s : Schema) (c : ClassId) (d : ClassDecl) (own : List FieldDecl) : Prop where
  layout : d.layout = s.inherited (.cls c) ++ own
  start : d.ownStart = (s.inherited (.cls c)).length

namespace Schema

variable {s : Schema} {c b : ClassId} {d d' : ClassDecl} {bs : List ClassId}

theorem inherited_of_root (hc : s.class? c = some d) (hbases : d.bases = []) :
    s.inherited (.cls c) = [] := by
  rw [inherited, base?, bases, show s.decl? (.cls c) = some d from hc, Option.elim_some, hbases]
  rfl

theorem inherited_of_base (hc : s.class? c = some d) (hbases : d.bases = b :: bs)
    (hb : s.class? b = some d') : s.inherited (.cls c) = d'.layout := by
  rw [inherited, base?, bases, show s.decl? (.cls c) = some d from hc, Option.elim_some, hbases]
  show s.fields (.cls b) = _
  rw [fields, show s.decl? (.cls b) = some d' from hb, Option.elim_some]

end Schema

/-! ## Classes of drafts -/

namespace ClassDecl.Drafted

variable {s : Schema} {c : ClassId} {d : ClassDecl} {draft : ClassDraft}

/-- A draft is accepted for the fields that its class inherits. -/
theorem inherited_eq {s₀ : Schema} (hs : s₀.Extends s) (hoffence : s₀.offence? draft = none)
    (hc : s.class? c = some (s₀.finish draft)) :
    s.inherited (.cls c) = draft.base.elim [] s₀.fields := by
  cases hbase : draft.base with
  | none => exact Schema.inherited_of_root hc (by simp [Schema.finish, hbase])
  | some t =>
    obtain ⟨b, d', rfl, -, hd', -⟩ := Schema.base_of_offence? hoffence hbase
    have hbases : (s₀.finish draft).bases = b :: d'.bases := by simp [Schema.finish, hbase, hd']
    rw [Schema.inherited_of_base hc hbases (hs.classes hd'), Option.elim_some, Schema.fields,
      show s₀.decl? (.cls b) = some d' from hd', Option.elim_some]

/-- A class of a draft adds the fields that the draft declares. -/
theorem adds (h : d.Drafted s c draft) (hc : s.class? c = some d) :
    ∃ own : List FieldDecl, own.map (fun f => (f.name, f.type, f.isPublic)) = draft.fields ∧
      d.Adds s c own := by
  obtain ⟨s₀, hs, hoffence, -, rfl⟩ := h
  have hinherited := inherited_eq hs hoffence hc
  refine ⟨draft.fields.map fun f => ⟨f.1, f.2.1, f.2.2, s₀.blank f.2.1⟩, ?_, ⟨?_, ?_⟩⟩
  · rw [List.map_map]
    exact List.map_id'' (fun _ => rfl) _
  · rw [hinherited, ← Schema.fields_base]
    rfl
  · rw [hinherited, ← Schema.fields_base]
    rfl

/-- It repeats no name, and no parameter types of constructors. -/
theorem distinct (h : d.Drafted s c draft) (hc : s.class? c = some d) :
    (draft.fields.map Prod.fst).Nodup ∧
      (∀ f ∈ s.inherited (.cls c), f.name ∉ draft.fields.map Prod.fst) ∧
      (d.properties.map PropertyDecl.name).Nodup ∧
      (d.constructors.map ConstructorDecl.params).Nodup := by
  obtain ⟨s₀, hs, hoffence, -, rfl⟩ := h
  rw [inherited_eq hs hoffence hc]
  exact Schema.distinct_of_offence? hoffence

/-- The fields that it adds have distinct names, which no inherited field has. -/
theorem exists_own (h : d.Drafted s c draft) (hc : s.class? c = some d) :
    ∃ own : List FieldDecl, d.Adds s c own ∧
      own.map FieldDecl.name = draft.fields.map Prod.fst ∧ (own.map FieldDecl.name).Nodup ∧
      ∀ f ∈ s.inherited (.cls c), f.name ∉ own.map FieldDecl.name := by
  obtain ⟨own, hown, hadds⟩ := h.adds hc
  obtain ⟨hnodup, hnew, -⟩ := h.distinct hc
  have hnames : own.map FieldDecl.name = draft.fields.map Prod.fst := by
    rw [← hown, List.map_map]
    rfl
  rw [← hnames] at hnodup hnew
  exact ⟨own, hadds, hnames, hnodup, hnew⟩

/-- It records no owned objects. -/
theorem owned_eq_none (h : d.Drafted s c draft) : d.owned = none := by
  obtain ⟨s₀, -, -, -, rfl⟩ := h
  rfl

/-- **A property that keeps itself** has the slot of its field, whichever class is below. -/
theorem auto_spec (h : d.Drafted s c draft) (hc : s.class? c = some d) {name : String} {type : Ty}
    (hm : .auto name type ∈ draft.members) {q : PropertyDecl} (hq : q ∈ d.properties)
    (hname : q.name = name) : ∃ k f, q = ClassDraft.keeping k name type ∧
      d.layout[k]? = some f ∧ f.name = backingName name ∧ f.type = type := by
  obtain ⟨own, hown, hadds⟩ := h.adds hc
  obtain ⟨-, -, hnames, -⟩ := h.distinct hc
  have hproperties : d.properties = ClassDraft.propertiesFrom d.ownStart draft.members := by
    obtain ⟨s₀, -, -, -, rfl⟩ := h
    rfl
  obtain ⟨j, hj, hkept⟩ := ClassDraft.exists_auto (k := d.ownStart) hm
  rw [← hproperties] at hkept
  -- the names of properties are distinct, so this is the one
  have hsame : q = ClassDraft.keeping (d.ownStart + j) name type :=
    List.inj_on_of_nodup_map hnames hq hkept hname
  rw [← hown, List.getElem?_map] at hj
  obtain ⟨f, hf, he⟩ := Option.map_eq_some_iff.mp hj
  refine ⟨_, f, hsame, ?_, congrArg Prod.fst he, congrArg (fun x => x.2.1) he⟩
  rw [hadds.layout, hadds.start, List.getElem?_append_right (Nat.le_add_right ..),
    Nat.add_sub_cancel_left]
  exact hf

end ClassDecl.Drafted

/-! ## Implementations -/

section
variable {w : Workshop} {S : Schema} {cache : List (Ty × DescriptorId)} {σ : Session}
variable {b c : ClassId} {i : Implementation} {base : ClassDecl}

namespace Implementation.Realizes

/-- An implementation adds a field for each of its properties. -/
theorem adds (hi : i.Realizes w S cache σ (.cls b) base) (hb : S.class? b = some i.base)
    (hc : S.class? c = some (i.decl S)) :
    (i.decl S).Adds S c (i.properties.map (ForgedProperty.fieldDecl S)) := by
  have hinherited := Schema.inherited_of_base hc (Implementation.bases_decl hi.type hb) hb
  constructor <;> rw [hinherited] <;> rfl

/-- The fields that an implementation adds are named for its properties, which have distinct names. -/
theorem nodup_names (hi : i.Realizes w S cache σ (.cls b) base) :
    ((i.properties.map (ForgedProperty.fieldDecl S)).map FieldDecl.name).Nodup := by
  have hnames : (i.properties.map (ForgedProperty.fieldDecl S)).map FieldDecl.name =
      ((i.decl S).properties.map PropertyDecl.name).map backingName := by
    rw [List.map_map, List.map_map]
    show _ = (i.properties.map (ForgedProperty.decl S)).map _
    rw [List.map_map]
    rfl
  rw [hnames]
  refine hi.nodup_properties.map fun x y hxy => ?_
  exact String.append_right_inj _ |>.mp hxy

end Implementation.Realizes

end

/-! ## Where the classes of a world come from -/

namespace Scene

variable {S S' : Scene} {e : Option Served} {told : List Served}

/-- Each class was declared by a draft, or made by a registry. -/
def Traced (S : Scene) : Prop :=
  ∀ c d, S.world.schema.class? c = some d → (∃ draft, d.Drafted S.world.schema c draft) ∨
    ∃ r registry, S.world.registries[r]? = some registry ∧ S.Makes r registry c d

theorem Step.traced (h : S.Sound) (ht : S.Traced) (hs : Step S e S') : S'.Traced := by
  intro c d hclass
  have he := (hs.evolves h).world
  rcases hs.origin h hclass with hold | ⟨draft, -, hdrafted⟩ | hmakes
  · rcases ht c d hold with ⟨draft, hdrafted⟩ | ⟨r, registry, hr, hmakes⟩
    · exact .inl ⟨draft, hdrafted.mono he.schema⟩
    · obtain ⟨registry', hr', hprovider, hknown⟩ := hs.follows h r registry hr
      exact .inr ⟨r, registry', hr', hmakes.grow h hr he hprovider hknown⟩
  · exact .inl ⟨draft, hdrafted⟩
  · exact .inr hmakes

theorem traced_of_runs (hruns : Runs {} told S) : S.Traced := by
  induction hruns with
  | refl => exact fun _ _ hc => nomatch hc
  | tail hruns hs ih => exact hs.traced (hruns.sound sound_empty) ih

end Scene

/-- An implementation records which objects it owns; no other class does. -/
def ClassDecl.isImplementation (d : ClassDecl) : Bool := d.owned.isSome

namespace World

/-- Where a class of a world comes from: a draft, or an abstract class whose implementation it is. -/
inductive Origin (w : World) (c : ClassId) (d : ClassDecl) : Prop
  | drafted {draft : ClassDraft} (h : d.Drafted w.schema c draft)
  | implemented {b : ClassId} {i : Implementation} {v : Workshop} {cache : List (Ty × DescriptorId)}
      (hb : w.schema.class? b = some i.base) (ha : i.base.isAbstract = true)
      (hi : i.Realizes v w.schema cache w.session (.cls b) i.base) (hd : d = i.decl w.schema)

variable {w : World} {c : ClassId} {d : ClassDecl}

/-- **Every class** of a world that comes about has an origin, also in the middle of a run. -/
theorem Guards.origin (hw : Guards {} w) (hc : w.schema.class? c = some d) : w.Origin c d := by
  obtain ⟨told, hruns⟩ := hw.tends.leads Scene.sound_empty
  rcases Scene.traced_of_runs hruns c d hc with ⟨draft, hdrafted⟩ | ⟨r, registry, hr, hmakes⟩
  · exact .drafted hdrafted
  · have hsound : w.quiet.Sound := (hw.settled settled_empty).sound
    obtain ⟨b, base, e, i, h₀, -, hb, ha, -, -, hi, hd, -⟩ := hmakes.spec (hsound.registries hr) hc
    obtain rfl := hi.base
    exact .implemented hb ha hi hd

theorem Reached.guards (hw : w.Reached) : Guards {} w := Later.guards settled_empty hw

/-- A class that records owned objects is an implementation. -/
theorem Origin.exists_implementation (h : w.Origin c d) (hd : d.isImplementation = true) :
    ∃ b i v cache, w.schema.class? b = some i.base ∧ i.base.isAbstract = true ∧
      Implementation.Realizes v w.schema cache w.session (.cls b) i.base i ∧
        d = i.decl w.schema := by
  cases h with
  | drafted h =>
    rw [ClassDecl.isImplementation, h.owned_eq_none] at hd
    cases hd
  | implemented hb ha hi he => exact ⟨_, _, _, _, hb, ha, hi, he⟩

/-- **A class adds its own fields** behind those of its base. -/
theorem Origin.adds (h : w.Origin c d) (hc : w.schema.class? c = some d) :
    ∃ own, d.Adds w.schema c own := by
  cases h with
  | drafted h =>
    obtain ⟨own, -, hadds⟩ := h.adds hc
    exact ⟨own, hadds⟩
  | implemented hb _ hi hd =>
    obtain rfl := hd
    exact ⟨_, hi.adds hb hc⟩

end World

end RecordForge
