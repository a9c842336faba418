import RecordForge.Run.Operations
import RecordForge.Proofs.Construction.Plans

/-!
# Dispatch on implementations

An implementation declares the abstract public properties of its class, and nothing else. So an
access to any other property is dispatched as it is for the class, and an accessor that no class of
the hierarchy gives a body stays without one.
-/

namespace RecordForge

/-- What has a name is found by it if no name is repeated. -/
theorem find?_of_nodup {α : Type} {name : α → String} {xs : List α} {x : α}
    (hnames : (xs.map name).Nodup) (hx : x ∈ xs) :
    xs.find? (fun y => name y == name x) = some x := by
  cases hy : xs.find? (fun y => name y == name x) with
  | none => exact absurd (beq_self_eq_true (name x)) (List.find?_eq_none.mp hy x hx)
  | some y =>
    have hname := List.find?_some hy
    rw [List.inj_on_of_nodup_map hnames (List.mem_of_find?_eq_some hy) hx (eq_of_beq hname)]

namespace Schema

variable {s : Schema} {t : Ty} {b c : ClassId} {d d' : ClassDecl} {α : Type}

/-- Names that are listed stay distinct. -/
theorem nodup_foldl_addProperty {entries found : List (Ty × PropertyDecl)}
    (h : (found.map fun q => q.2.name).Nodup) :
    ((entries.foldl addProperty found).map fun q => q.2.name).Nodup := by
  induction entries generalizing found with
  | nil => exact h
  | cons e entries ih =>
    refine ih ?_
    rw [addProperty]
    split
    · exact h
    · next hnew =>
      rw [List.map_append, List.nodup_append]
      refine ⟨h, List.nodup_singleton _, fun name hname other hother => ?_⟩
      obtain ⟨q, hq, rfl⟩ := List.mem_map.mp hname
      obtain rfl := List.mem_singleton.mp hother
      intro he
      exact hnew (List.any_eq_true.mpr ⟨q, hq, beq_iff_eq.mpr he⟩)

/-- Public properties are told apart by their names. -/
theorem nodup_publicProperties (s : Schema) (t : Ty) :
    ((s.publicProperties t).map fun q => q.2.name).Nodup :=
  @nodup_foldl_addProperty _ [] List.nodup_nil

theorem publicProperties_unique {a a' : Ty} {p q : PropertyDecl}
    (hp : (a, p) ∈ s.publicProperties t) (hq : (a', q) ∈ s.publicProperties t)
    (hname : p.name = q.name) : p = q :=
  congrArg Prod.snd (List.inj_on_of_nodup_map (s.nodup_publicProperties t) hp hq hname)

/-- The accessor of a class with a base is the one that it declares, or else that of its base. -/
theorem accessor?_of_bases (part : PropertyDecl → Option (Accessor α)) (hd : s.class? c = some d)
    (hb : s.class? b = some d') (hbases : d.bases = b :: d'.bases) (name : String) :
    s.accessor? part (.cls c) name =
      ((d.properties.find? fun p => p.name == name).bind part).or
        (s.accessor? part (.cls b) name) := by
  rw [accessor?, lineage_of_bases hd hb hbases, List.findSome?_cons]
  dsimp only
  cases (d.properties.find? fun p => p.name == name).bind part with
  | none => rfl
  | some a => rfl

/-- An accessor that a class declares itself is found before those of its bases. -/
theorem accessor?_own (part : PropertyDecl → Option (Accessor α)) {q : PropertyDecl} {a : Accessor α}
    (hd : s.class? c = some d) (hnames : (d.properties.map PropertyDecl.name).Nodup)
    (hq : q ∈ d.properties) (ha : part q = some a) : s.accessor? part (.cls c) q.name = some a := by
  rw [accessor?, lineage, ancestors, List.filterMap_cons, show s.decl? (.cls c) = some d from hd,
    Option.map_some, List.findSome?_cons]
  dsimp only
  rw [find?_of_nodup hnames hq, Option.bind_some, ha]

theorem getterFor_own {q : PropertyDecl} {g : Getter} (hd : s.class? c = some d)
    (hnames : (d.properties.map PropertyDecl.name).Nodup) (hq : q ∈ d.properties)
    (hg : q.getter = some (.body g)) : s.getterFor (.cls c) q.name = .ok g := by
  rw [getterFor, accessor?_own PropertyDecl.getter hd hnames hq hg]
  rfl

theorem setterFor_own {q : PropertyDecl} {g : Setter} (hd : s.class? c = some d)
    (hnames : (d.properties.map PropertyDecl.name).Nodup) (hq : q ∈ d.properties)
    (hg : q.setter = some (.body g)) : s.setterFor (.cls c) q.name = .ok g := by
  rw [setterFor, accessor?_own PropertyDecl.setter hd hnames hq hg]
  rfl

/-- There is no body to run if the accessor is abstract. -/
theorem bodyOf_eq_abstract {name missing : String} {a : Option (Accessor α)} :
    s.bodyOf t name missing a = .error (.abstractMember (s.name t) name) ↔ a = some .abstract := by
  rcases a with _ | _ | b <;> simp [bodyOf]

end Schema

/-! ## What an implementation declares -/

section
variable {w : Workshop} {S s : Schema} {cache : List (Ty × DescriptorId)} {σ : Session} {t a : Ty}
variable {c : ClassDecl} {i : Implementation} {p : PropertyDecl} {f : ForgedProperty}

/-- The properties of an implementation are told apart by their names. -/
theorem Implementation.Realizes.nodup_properties (hi : i.Realizes w S cache σ t c) :
    ((i.decl s).properties.map PropertyDecl.name).Nodup := by
  have hnames : (i.decl s).properties.map PropertyDecl.name =
      (S.abstractProperties t).map PropertyDecl.name := by
    rw [← hi.properties.properties]
    show (i.properties.map (ForgedProperty.decl s)).map _ = _
    rw [List.map_map, List.map_map]
    rfl
  have hpublic := S.nodup_publicProperties t
  rw [show (fun q : Ty × PropertyDecl => q.2.name) = PropertyDecl.name ∘ Prod.snd from rfl,
    ← List.map_map] at hpublic
  rw [hnames]
  exact hpublic.sublist (List.filter_sublist.map _)

/-- The property of an implementation with the name of a public property of its class. There is one
if that is abstract. -/
theorem Implementation.Realizes.find_property (hi : i.Realizes w S cache σ t c)
    (hp : (a, p) ∈ S.publicProperties t) :
    (p.isAbstract = false ∧ (i.decl s).properties.find? (fun q => q.name == p.name) = none) ∨
      (p.isAbstract = true ∧ ∃ (f : ForgedProperty) (slot : Nat), f.Realizes w S cache σ t p slot ∧
        (i.decl s).properties.find? (fun q => q.name == p.name) = some (f.decl s)) := by
  have hfind : (i.decl s).properties.find? (fun q => q.name == p.name) =
      (i.properties.find? fun f => f.field.property.name == p.name).map
        (ForgedProperty.decl s) := List.find?_map ..
  rw [hfind]
  cases hf : i.properties.find? fun f => f.field.property.name == p.name with
  | none =>
    refine .inl ⟨Bool.eq_false_iff.mpr fun habs => ?_, rfl⟩
    obtain ⟨f, hmem, k, hreal⟩ := hi.properties.exists_of_mem
      (Schema.mem_abstractProperties.mpr ⟨⟨a, hp⟩, habs⟩)
    obtain ⟨F, m, -, he⟩ := hreal.eq
    exact List.find?_eq_none.mp hf f hmem (by rw [he]; exact beq_self_eq_true _)
  | some f =>
    obtain ⟨q, hq, k, hreal⟩ := hi.properties.mem (List.mem_of_find?_eq_some hf)
    obtain ⟨⟨a', hq'⟩, habs⟩ := Schema.mem_abstractProperties.mp hq
    have hname : f.field.property.name = p.name := by simpa using List.find?_some hf
    obtain ⟨F, m, -, he⟩ := hreal.eq
    obtain rfl : q = p := Schema.publicProperties_unique hq' hp (by rw [← hname, he])
    exact .inr ⟨habs, f, _, hreal, rfl⟩

/-- The value of a property is kept in a member that is read-only. -/
def Provider.KeepsReadOnly (v : Provider) (s : Schema) (t : Ty) (p : PropertyDecl) : Prop :=
  ∃ F m, v.Chooses s t p F (some m) ∧ m.isWritable = false

/-- A property of an implementation has a setter, unless its value is in a member that is read-only. -/
theorem ForgedProperty.Realizes.setter_eq_none {slot : Nat} (hf : f.Realizes w S cache σ t p slot) :
    (f.decl s).setter = none ↔ w.provider.KeepsReadOnly S t p := by
  obtain ⟨F, member, hchooses, he⟩ := hf.eq
  have hsetter : (f.decl s).setter = none ↔ f.shape = .omitted := by
    cases hs : f.shape <;> simp [decl, PropertyField.setter?, hs]
  have hshape := hf.shape
  simp only [PropertyField.setterShape, he] at hshape
  rw [hsetter]
  cases member with
  | none =>
    obtain hs : SetterShape.direct = f.shape := Except.ok.inj hshape
    rw [← hs]
    constructor
    · intro h
      cases h
    · rintro ⟨F', m, hm, -⟩
      cases (hchooses.unique hm).2
  | some m =>
    dsimp only at hshape
    constructor
    · intro homitted
      refine ⟨F, m, hchooses, Bool.eq_false_iff.mpr fun hw => ?_⟩
      rw [if_pos hw, homitted] at hshape
      cases hshape
    · rintro ⟨F', m', hm', hw⟩
      obtain rfl := Option.some.inj (hchooses.unique hm').2
      rw [hw, if_neg Bool.false_ne_true] at hshape
      split at hshape
      · cases hshape
      · exact (Except.ok.inj hshape).symm

/-- An accessor of an implementation is one that it declares, or else that of its class. -/
theorem Implementation.Realizes.accessor?_eq {α : Type} {product : Ty}
    (hi : i.Realizes w S cache σ t c) (hc : S.decl? t = some c)
    (hd : S.decl? product = some (i.decl S)) (part : PropertyDecl → Option (Accessor α))
    (name : String) : S.accessor? part product name =
      (((i.decl S).properties.find? fun q => q.name == name).bind part).or
        (S.accessor? part t name) := by
  obtain ⟨n, rfl, -⟩ := Schema.lt_size_of_decl? hd
  obtain ⟨b, rfl, -⟩ := Schema.lt_size_of_decl? hc
  have hbases : (i.decl S).bases = b :: c.bases := by
    rw [← hi.base]
    exact Implementation.bases_decl hi.type (hi.base ▸ hc)
  exact Schema.accessor?_of_bases part hd hc hbases name

end

/-! ## Main result -/

namespace Scene

variable {S : Scene} {r : RegistryId} {registry : Registry} {t : Ty}

/-- **What dispatch finds on an implementation.** A property that is abstract in its most derived
public declaration can be read, and written unless its value is in a member that is read-only. Where
dispatch ends in an accessor without a body, the implementation does not declare it, and it is left
abstract elsewhere in the hierarchy. -/
theorem implementation_dispatch {told : List Served} (hruns : Runs {} told S)
    (hr : S.world.registries[r]? = some registry) {e : DescriptorId} {x : Descriptor}
    (hc : registry.cached? t = some e) (hx : S.world.descriptors[e]? = some x)
    (hs : x.isSynthesized = true) {a : Ty} {p : PropertyDecl}
    (hp : (a, p) ∈ S.world.schema.publicProperties t) :
    let s := S.world.schema
    let missing := Fault.abstractMember (s.name x.product) p.name
    (p.isAbstract = true → ∃ getter, s.getterFor x.product p.name = .ok getter) ∧
      (p.isAbstract = true → ¬registry.provider.KeepsReadOnly s t p →
        ∃ setter, s.setterFor x.product p.name = .ok setter) ∧
      (s.getterFor x.product p.name = .error missing ↔
        p.isAbstract = false ∧ s.accessor? PropertyDecl.getter t p.name = some .abstract) ∧
      (s.setterFor x.product p.name = .error missing ↔
        (p.isAbstract = false ∨ registry.provider.KeepsReadOnly s t p) ∧
          s.accessor? PropertyDecl.setter t p.name = some .abstract) := by
  have hsound := sound_of_runs hruns
  have hat := hsound.registries hr
  have habs : S.world.schema.isAbstract t = true := by
    obtain ⟨h₀, -, hserves⟩ := hat.serves_cached hc hx
    cases hserves with
    | concrete _ _ _ hx => rw [hx] at hs; cases hs
    | implemented hd _ habs => simp [Schema.isAbstract, hd, habs]
  obtain ⟨c, i, h₀, -, hdecl, -, hi, hproduct, -⟩ := hat.exists_implementation hc hx habs
  obtain ⟨s, hschema⟩ : ∃ s, S.world.schema = s := ⟨_, rfl⟩
  rw [hschema] at hp hdecl hi hproduct ⊢
  have hget := hi.accessor?_eq hdecl hproduct PropertyDecl.getter p.name
  have hset := hi.accessor?_eq hdecl hproduct PropertyDecl.setter p.name
  simp only [Schema.getterFor, Schema.setterFor, Schema.bodyOf_eq_abstract, hget, hset]
  rcases hi.find_property (s := s) hp with ⟨hconcrete, hfind⟩ | ⟨habstract, f, slot, hreal, hfind⟩
  · simp only [hfind, hconcrete, Option.bind_none, Option.none_or]
    simp
  · have hgetter : (f.decl s).getter = some (.body (f.field.getter s)) := rfl
    have hnone : (f.decl s).setter = none ↔ registry.provider.KeepsReadOnly s t p :=
      hreal.setter_eq_none
    simp only [hfind, habstract, Option.bind_some, hgetter, Option.some_or, ← hnone]
    have hsetter : (f.decl s).setter = (f.field.setter? f.shape).map .body := rfl
    rw [hsetter]
    cases f.field.setter? f.shape <;> simp [Schema.bodyOf]

/-- Drafts of an abstract class with a property, and of one below it that declares the property again,
with a getter only, which has a body. -/
def graftDrafts : List ClassDraft :=
  [{ name := "Graft.Stock", isAbstract := true
     members := [.property (World.forestProperty .any), .defaultConstructor] },
   { name := "Graft.Scion", base := some (.cls 0), isAbstract := true
     members := [.property { name := "Inner", type := .any, getter := some (.body (.routine [])) },
       .defaultConstructor] }]

/-- The world in which `Graft.Scion` has been implemented. -/
def graft : World := asked graftDrafts (.cls 1)

theorem graft_canDeclare : CanDeclare {} graftDrafts := by decide +kernel

theorem graft_runs : ∃ told, Runs {} told graft.quiet :=
  asked_runs (opened_runs graft_canDeclare (by decide) (by decide)) (.cls 1)

/-- The setter of `Graft.Stock` is left without a body. -/
theorem implementation_dispatch_graft :
    graft.schema.setterFor (.cls 2) "Inner" =
      .error (.abstractMember (graft.schema.name (.cls 2)) "Inner") := by
  obtain ⟨told, hruns⟩ := graft_runs
  obtain ⟨registry, x, hr, hc, hx, hs, hproduct⟩ :=
    exists_published (w := graft) (r := 0) (t := .cls 1) (e := 0) rfl rfl
  have hp : (.cls 1, { name := "Inner", type := .any, getter := some (.body (.routine [])) }) ∈
      graft.schema.publicProperties (.cls 1) := List.mem_singleton.mpr rfl
  have hsetter := (implementation_dispatch (S := graft.quiet) hruns hr hc hx hs hp).2.2.2
  rw [hproduct] at hsetter
  exact hsetter.mpr ⟨.inl rfl, rfl⟩

/-- So the property cannot be written on an instance. -/
theorem graft_refuses_write :
    (graft.descriptors[0]?.map fun x => (x.type, x.product, x.isSynthesized)) =
        some (.cls 1, .cls 2, true) ∧
      "Inner" ∈ (graft.schema.publicProperties (.cls 1)).map (fun q => q.2.name) ∧
      ∃ x w, graft.descriptors[0]? = some x ∧
        (∀ depth, Run.create (depth + 4) x none graft = (.ok (.created 0), w)) ∧
        ∀ depth v, Run.setProperty (depth + 1) 0 "Inner" v w =
          (.error (.fault (.abstractMember "Graft.Scion.MappingExtension.Scion" "Inner")), w) :=
  ⟨rfl, by decide, _, _, rfl, fun _ => rfl, fun _ _ => rfl⟩

end Scene

end RecordForge
