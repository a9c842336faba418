import RecordForge.Proofs.Access.Enumeration
import RecordForge.Proofs.Access.Places

/-!
# Accessors that implementations keep

An implementation declares the properties that are listed as abstract, each with both accessors, and
leaves all others alone. So dispatch on it ends in a body of its class wherever the most derived
declaration of the name is not abstract. A property that is declared counts as a whole: a body that one
of its accessors has is no longer reached, unless the implementation declares no accessor in its place.

A declaration that is not public is not listed. Where it stands below an abstract public one, that is
listed in its place (`Schema.Overlooks`), and nothing is said here of such names.
-/

namespace RecordForge

namespace Schema

variable {s : Schema} {t u : Ty} {α : Type}

/-- A type without an accessor of its own has the bodies of the type that it is looked up in next. -/
theorem bodyOf_of_accessor?_eq {part : PropertyDecl → Option (Accessor α)} {name missing : String}
    {b : α} (he : s.accessor? part u name = s.accessor? part t name)
    (h : s.bodyOf t name missing (s.accessor? part t name) = .ok b) :
    s.bodyOf u name missing (s.accessor? part u name) = .ok b := by
  rw [bodyOf_eq_ok_iff] at h ⊢
  exact he.trans h

/-- The most derived declaration of a name is not public, and an abstract one above it is listed in its
place. -/
def Overlooks (s : Schema) (t : Ty) (name : String) : Prop :=
  ∃ x, s.findProperty? t name = some x ∧ x.2.isPublic = false ∧
    ∃ p ∈ s.abstractProperties t, p.name = name

/-- Otherwise an abstract property that is listed is its own most derived declaration. -/
theorem exists_found_of_abstract {p : PropertyDecl} (hp : p ∈ s.abstractProperties t)
    (hsees : ¬s.Overlooks t p.name) : ∃ x, s.findProperty? t p.name = some x ∧
      x.2.isPublic = true ∧ x.2 = p := by
  obtain ⟨⟨a, hlisted⟩, -⟩ := mem_abstractProperties.mp hp
  obtain ⟨y, hy, -, -, hsame⟩ := exists_found hlisted
  cases hpublic : y.2.isPublic with
  | true => exact ⟨y, hy, hpublic, by rw [hsame hpublic]⟩
  | false => exact absurd ⟨y, hy, hpublic, p, hp, rfl⟩ hsees

end Schema

section
variable {w : Workshop} {S : Schema} {cache : List (Ty × DescriptorId)} {σ : Session} {t product : Ty}
variable {base : ClassDecl} {i : Implementation} {p : PropertyDecl} {f : ForgedProperty}
variable {name : String}

namespace Implementation.Realizes

variable (hi : i.Realizes w S cache σ t base)
include hi

/-- An implementation declares no property that is not abstract. -/
theorem find?_eq_none (h : ∀ p ∈ S.abstractProperties t, p.name ≠ name) :
    (i.decl S).properties.find? (fun q => q.name == name) = none := by
  refine List.find?_eq_none.mpr fun q hq hname => ?_
  obtain ⟨f, hf, rfl⟩ := List.mem_map.mp hq
  obtain ⟨p, hp, k, hreal⟩ := hi.properties.mem hf
  obtain ⟨F, m, -, he⟩ := hreal.eq
  refine h p hp ?_
  have hnamed : f.field.property.name = name := beq_iff_eq.mp hname
  rwa [he] at hnamed

/-- The property that an implementation declares for an abstract one is one of its properties. -/
theorem exists_of_abstract (hp : p ∈ S.abstractProperties t) :
    ∃ f ∈ i.properties, ∃ slot, f.Realizes w S cache σ t p slot ∧
      (i.decl S).properties.find? (fun q => q.name == p.name) = some (f.decl S) := by
  obtain ⟨⟨a, hpublic⟩, habs⟩ := Schema.mem_abstractProperties.mp hp
  rcases hi.find_property (s := S) hpublic with ⟨hconcrete, -⟩ | ⟨-, f, slot, hreal, hfind⟩
  · rw [habs] at hconcrete
    cases hconcrete
  have hmem : f.decl S ∈ i.properties.map (ForgedProperty.decl S) := List.mem_of_find?_eq_some hfind
  obtain ⟨f', hf', he⟩ := List.mem_map.mp hmem
  obtain ⟨q, hq, k, hreal'⟩ := hi.properties.mem hf'
  obtain ⟨F, m, -, hfield⟩ := hreal.eq
  obtain ⟨F', m', -, hfield'⟩ := hreal'.eq
  -- the declaration tells the name, and the name the property
  have hname : q.name = p.name := by
    have hdecl := congrArg PropertyDecl.name he
    simpa only [ForgedProperty.decl, hfield, hfield'] using hdecl
  obtain ⟨⟨a', hq'⟩, -⟩ := Schema.mem_abstractProperties.mp hq
  obtain rfl : q = p := Schema.publicProperties_unique hq' hpublic hname
  exact ⟨f', hf', _, hreal', he ▸ hfind⟩

variable (hbase : S.decl? t = some base) (hproduct : S.decl? product = some (i.decl S))
include hbase hproduct

/-- Where an implementation declares nothing, an accessor is found as in its class. -/
theorem accessor?_kept {α : Type} {part : PropertyDecl → Option (Accessor α)}
    (h : ((i.decl S).properties.find? fun q => q.name == name).bind part = none) :
    S.accessor? part product name = S.accessor? part t name := by
  rw [hi.accessor?_eq hbase hproduct part name, h, Option.none_or]

/-- Where an implementation declares an accessor, that is found. -/
theorem accessor?_filled {α : Type} {part : PropertyDecl → Option (Accessor α)} {b : Accessor α}
    (h : ((i.decl S).properties.find? fun q => q.name == name).bind part = some b) :
    S.accessor? part product name = some b := by
  rw [hi.accessor?_eq hbase hproduct part name, h, Option.some_or]

/-- The accessors of an abstract property are those of its field, apart from a setter that the
implementation does not declare. -/
theorem accessors_filled (hp : p ∈ S.abstractProperties t) :
    ∃ k, (S.fields t).length ≤ k ∧ k < (S.fields product).length ∧
      (∃ getter, S.getterFor product p.name = .ok getter ∧ getter.slot? = some k) ∧
      (¬w.provider.KeepsReadOnly S t p →
        ∃ setter, S.setterFor product p.name = .ok setter ∧ setter.slot? = some k) ∧
      (w.provider.KeepsReadOnly S t p →
        ∀ setter, S.setterFor t p.name = .ok setter → S.setterFor product p.name = .ok setter) := by
  obtain ⟨f, hf, slot, hreal, hfind⟩ := hi.exists_of_abstract hp
  obtain ⟨hstart, hlayout⟩ := hi.layout_slot hf
  have hfields : S.fields t = i.base.layout := by rw [Schema.fields, hbase, hi.base]; rfl
  have hslots : S.fields product = (i.decl S).layout := by rw [Schema.fields, hproduct]; rfl
  refine ⟨f.field.slot, hfields ▸ hstart, hslots ▸ (List.getElem?_eq_some_iff.mp hlayout).1, ?_, ?_, ?_⟩
  · have hdeclared : ((i.decl S).properties.find? fun q => q.name == p.name).bind
        PropertyDecl.getter = some (.body (f.field.getter S)) := by rw [hfind]; rfl
    refine ⟨f.field.getter S, ?_, slot?_getter _⟩
    exact Schema.bodyOf_eq_ok_iff.mpr (hi.accessor?_filled hbase hproduct hdeclared)
  · intro hwritable
    rw [← hreal.setter_eq_none] at hwritable
    cases hg : f.field.setter? f.shape with
    | none =>
      have homitted : (f.decl S).setter = none := by
        rw [ForgedProperty.decl, hg]
        rfl
      exact absurd homitted hwritable
    | some setter =>
      have hdeclared : ((i.decl S).properties.find? fun q => q.name == p.name).bind
          PropertyDecl.setter = some (.body setter) := by
        rw [hfind, Option.bind_some, ForgedProperty.decl, hg]
        rfl
      refine ⟨setter, ?_, slot?_setter hg⟩
      exact Schema.bodyOf_eq_ok_iff.mpr (hi.accessor?_filled hbase hproduct hdeclared)
  · intro hreadOnly setter hsetter
    have hdeclared : ((i.decl S).properties.find? fun q => q.name == p.name).bind
        PropertyDecl.setter = none := by rw [hfind]; exact hreal.setter_eq_none.mpr hreadOnly
    exact Schema.bodyOf_of_accessor?_eq (hi.accessor?_kept hbase hproduct hdeclared) hsetter

end Implementation.Realizes

end

/-! ## Main result -/

namespace Scene

variable {S : Scene} {r : RegistryId} {registry : Registry} {t : Ty}

/-- **What an implementation keeps.** Dispatch on it ends in the body that it ends in on its class, as
long as the most derived declaration of the name is not both public and abstract. One that is, is filled
in as a whole: its getter is that of a field behind those of the class, and so is its setter, unless the
value is kept in a member that is read-only; then a setter of the class is kept. -/
theorem accessors_kept_or_filled {told : List Served} (hruns : Runs {} told S)
    (hr : S.world.registries[r]? = some registry) {e : DescriptorId} {x : Descriptor}
    (hc : registry.cached? t = some e) (hx : S.world.descriptors[e]? = some x)
    (hs : x.isSynthesized = true) {name : String} (hsees : ¬S.world.schema.Overlooks t name) :
    let s := S.world.schema
    ((∀ a p, s.findProperty? t name = some (a, p) → p.isPublic = true → p.isAbstract = false) →
      (∀ getter, s.getterFor t name = .ok getter → s.getterFor x.product name = .ok getter) ∧
        ∀ setter, s.setterFor t name = .ok setter → s.setterFor x.product name = .ok setter) ∧
      ∀ a p, s.findProperty? t name = some (a, p) → p.isPublic = true → p.isAbstract = true →
        ∃ k, (s.fields t).length ≤ k ∧ k < (s.fields x.product).length ∧
          (∃ getter, s.getterFor x.product name = .ok getter ∧ getter.slot? = some k) ∧
          (¬registry.provider.KeepsReadOnly s t p →
            ∃ setter, s.setterFor x.product name = .ok setter ∧ setter.slot? = some k) ∧
          (registry.provider.KeepsReadOnly s t p →
            ∀ setter, s.setterFor t name = .ok setter → s.setterFor x.product name = .ok setter) := by
  have hat := (sound_of_runs hruns).registries hr
  have habs : S.world.schema.isAbstract t = true := by
    obtain ⟨h₀, -, hserves⟩ := hat.serves_cached hc hx
    cases hserves with
    | concrete _ _ _ hx =>
      rw [hx] at hs
      cases hs
    | implemented hd _ habs => simp [Schema.isAbstract, hd, habs]
  obtain ⟨c, i, h₀, -, hdecl, -, hi, hproduct, -⟩ := hat.exists_implementation hc hx habs
  refine ⟨fun hconcrete => ?_, fun a p hfound hpublic habstract => ?_⟩
  · have hnone : ∀ p ∈ S.world.schema.abstractProperties t, p.name ≠ name := by
      rintro p hp rfl
      obtain ⟨⟨a, q⟩, hfound, hpublic, rfl⟩ := Schema.exists_found_of_abstract hp hsees
      have habstract := (Schema.mem_abstractProperties.mp hp).2
      rw [hconcrete a q hfound hpublic] at habstract
      cases habstract
    have hfind := hi.find?_eq_none hnone
    constructor
    · intro getter hgetter
      refine Schema.bodyOf_of_accessor?_eq (hi.accessor?_kept hdecl hproduct ?_) hgetter
      rw [hfind, Option.bind_none]
    · intro setter hsetter
      refine Schema.bodyOf_of_accessor?_eq (hi.accessor?_kept hdecl hproduct ?_) hsetter
      rw [hfind, Option.bind_none]
  · obtain ⟨-, rfl⟩ := Schema.findProperty?_eq_some_iff.mp hfound
    have hlisted := Schema.mem_publicProperties_of_found hfound hpublic
    exact hi.accessors_filled hdecl hproduct
      (Schema.mem_abstractProperties.mpr ⟨⟨a, hlisted⟩, habstract⟩)

/-- A draft of an abstract class with two properties whose getters have bodies. One has no setter, the
other one an abstract setter. -/
def burrowDrafts : List ClassDraft :=
  let seven : Routine := [.give (.value (.scalar (.text "seven")))]
  [{ name := "Burrow.Den", isAbstract := true
     members := [
       .property { name := "Depth", type := .scalar .text, getter := some (.body (.routine seven)) },
       .property { name := "Width", type := .scalar .text, getter := some (.body (.routine seven)),
                   setter := some .abstract },
       .defaultConstructor] }]

/-- The world in which `Burrow.Den` has been implemented. -/
def burrow : World := asked burrowDrafts (.cls 0)

theorem burrow_canDeclare : CanDeclare {} burrowDrafts := by decide +kernel

theorem burrow_runs : ∃ told, Runs {} told burrow.quiet :=
  asked_runs (opened_runs burrow_canDeclare (by decide) (by decide)) (.cls 0)

/-- `Depth` is read by the body that `Burrow.Den` gives it, and `Width` from a field. -/
theorem accessors_kept_or_filled_burrow :
    let seven := Getter.routine [.give (.value (.scalar (.text "seven")))]
    burrow.schema.getterFor (.cls 1) "Depth" = .ok seven ∧
      ∃ k, (∃ getter, burrow.schema.getterFor (.cls 1) "Width" = .ok getter ∧ getter.slot? = some k) ∧
        ∃ setter, burrow.schema.setterFor (.cls 1) "Width" = .ok setter ∧ setter.slot? = some k := by
  obtain ⟨told, hruns⟩ := burrow_runs
  obtain ⟨registry, x, hr, hc, hx, hs, hproduct⟩ :=
    exists_published (w := burrow) (r := 0) (t := .cls 0) (e := 0) rfl rfl
  -- all declarations are public
  have hsees : ∀ name a p, burrow.schema.findProperty? (.cls 0) name = some (a, p) →
      p.isPublic = true → ¬burrow.schema.Overlooks (.cls 0) name := by
    rintro name a p hfound hpublic ⟨y, hy, hprivate, -⟩
    obtain rfl := Option.some.inj (hfound.symm.trans hy)
    rw [hpublic] at hprivate
    cases hprivate
  obtain ⟨hdepth, -⟩ := accessors_kept_or_filled (S := burrow.quiet) hruns hr hc hx hs
    (hsees "Depth" _ _ rfl rfl)
  obtain ⟨-, hwidth⟩ := accessors_kept_or_filled (S := burrow.quiet) hruns hr hc hx hs
    (hsees "Width" _ _ rfl rfl)
  rw [hproduct] at hdepth hwidth
  let width : PropertyDecl :=
    { name := "Width", type := .scalar .text, setter := some .abstract
      getter := some (.body (.routine [.give (.value (.scalar (.text "seven")))])) }
  have hprovider : registry.provider = .attributes := by
    have hall : burrow.registries[0]?.map Registry.provider = some .attributes := rfl
    rw [hr] at hall
    exact Option.some.inj hall
  have hwritable : ¬registry.provider.KeepsReadOnly burrow.schema (.cls 0) width := by
    rintro ⟨F, m, hchooses, -⟩
    rw [hprovider] at hchooses
    have hdeclared : Provider.attributes.Chooses burrow.schema (.cls 0) width (.scalar .text) none :=
      .declared rfl
    cases (hchooses.unique hdeclared).2
  refine ⟨(hdepth fun a p hfound _ => ?_).1 _ rfl, ?_⟩
  · cases hfound
    rfl
  · obtain ⟨k, -, -, hgetter, hsetter, -⟩ := hwidth (.cls 0) width rfl rfl rfl
    exact ⟨k, hgetter, hsetter hwritable⟩

/-- The getter that `Burrow.Den` gives `Width` is not kept, and its value is not what is read. -/
theorem burrow_replaces_getter :
    (burrow.descriptors[0]?.map fun x => (x.type, x.product, x.isSynthesized)) =
        some (.cls 0, .cls 1, true) ∧
      burrow.schema.getterFor (.cls 0) "Width" =
        .ok (.routine [.give (.value (.scalar (.text "seven")))]) ∧
      burrow.schema.getterFor (.cls 1) "Width" = .ok (.slot 0) ∧
      ∃ x w, burrow.descriptors[0]? = some x ∧
        (∀ depth, Run.create (depth + 4) x none burrow = (.ok (.created 0), w)) ∧
        ∀ depth, Run.getProperty (depth + 1) 0 "Width" w = (.ok .null, w) :=
  ⟨rfl, rfl, rfl, _, _, rfl, fun _ => rfl, fun _ => rfl⟩

end Scene

end RecordForge
