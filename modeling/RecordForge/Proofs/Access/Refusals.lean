import RecordForge.Proofs.Access.Enumeration
import RecordForge.Proofs.Access.NullableMembers

/-!
# Which mappers are refused

A mapper is refused if its class has no member of the name. Else it is refused for the member only if that
is to be written, is a nullable wrapper, and mappers do not make the wrapper from its value
(`Schema.CannotMake`). All other members have mappers, though not all can be written
(`MemberMapper.made_or_refused`).

The second refusal tells of a constructor that the wrapper lacks. It does lack that if its value is of a
scalar type. If the value is an enumeration or an object then the wrapper is refused whatever its
constructors are, also one that has the constructor (`Scene.rack_refuses_what_is_there`).
-/

namespace RecordForge

namespace Schema

variable {s : Schema} {t : Ty} {params : List Ty} {name : String}

/-- The types that are written by a conversion: the scalar types and the enumerations. -/
def IsElementary (s : Schema) (t : Ty) : Prop :=
  (∃ k, t = .scalar k) ∨ s.isEnum t = true

/-- A nullable wrapper that mappers do not make from its value: either no constructor takes just the
value, or the value is not of a scalar type. -/
structure CannotMake (s : Schema) (wrapper value : Ty) : Prop where
  shape : s.isNullable wrapper = true
  holds : ∃ x, s.Leads wrapper (fun _ => true) x ∧ x.2.name = valueName ∧ x.2.type = value
  cause : (∀ c ∈ s.constructors wrapper, c.params ≠ [value]) ∨ ∀ k, value ≠ .scalar k

theorem signature_singleton (s : Schema) (t : Ty) : s.signature [t] = s.name t := rfl

theorem kind?_eq_none_iff : kind? t = none ↔ ∀ k, t ≠ .scalar k := by
  cases t <;> simp [kind?]

theorem findConstructor?_eq_none_iff :
    s.findConstructor? t params = none ↔ ∀ c ∈ s.constructors t, c.params ≠ params := by
  rw [← Option.not_isSome_iff_eq_none, findConstructor?_isSome]
  simp only [not_exists, not_and, ne_eq]

theorem isElementary_iff :
    s.IsElementary t ↔ ((kind? t).or (s.underlying? t)).isSome = true := by
  rw [IsElementary, isEnum, underlying?, Option.isSome_or, Option.isSome_map, Bool.or_eq_true]
  refine or_congr_left ?_
  cases t <;> simp [kind?]

/-- A nullable wrapper is a class. -/
theorem not_isElementary_of_isNullable (h : s.isNullable t = true) : ¬s.IsElementary t := by
  rw [isNullable, Bool.and_eq_true, Bool.and_eq_true, implementsInterface] at h
  obtain ⟨d, hd, -⟩ := (Option.any_eq_true _ _).mp h.1.1
  obtain ⟨c, rfl, -⟩ := lt_size_of_decl? hd
  rintro (⟨k, hk⟩ | henum)
  · cases hk
  · cases henum

/-- What keeps mappers from making a wrapper can be looked up. -/
theorem cannotMake_iff {x : Ty × PropertyDecl} {value : Ty} (hshape : s.isNullable t = true)
    (hx : s.findProperty? t valueName = some x) : s.CannotMake t value ↔
      x.2.type = value ∧ (s.findConstructor? t [value] = none ∨ kind? value = none) := by
  rw [findConstructor?_eq_none_iff, kind?_eq_none_iff]
  constructor
  · rintro ⟨-, ⟨y, hleads, hname, htype⟩, hcause⟩
    obtain rfl := Option.some.inj (hx.symm.trans (findProperty?_eq_some_iff.mpr ⟨hleads, hname⟩))
    exact ⟨htype, hcause⟩
  · rintro ⟨htype, hcause⟩
    obtain ⟨hleads, hname⟩ := findProperty?_eq_some_iff.mp hx
    exact ⟨hshape, ⟨x, hleads, hname, htype⟩, hcause⟩

end Schema

namespace MemberMapper

variable {s : Schema} {hooks : Hooks} {r : Request} {m : MemberMapper} {t : Ty} {settable : Bool}
variable {e : RequestError}

/-! ## Members of nullable types and others -/

/-- A writer is refused for a nullable wrapper that mappers do not make. -/
theorem writerFor_eq_error_iff : writerFor s t = .error e ↔
    ∃ value, s.CannotMake t value ∧ e = .missingConstructor (s.name t) (s.name value) := by
  rw [writerFor]
  cases helementary : (Schema.kind? t).or (s.underlying? t) with
  | some k =>
    constructor
    · intro h
      cases h
    · rintro ⟨value, hcannot, -⟩
      have hnot := Schema.not_isElementary_of_isNullable hcannot.shape
      exact (hnot (Schema.isElementary_iff.mpr (Option.isSome_of_eq_some helementary))).elim
  | none =>
    dsimp only
    split
    · next hshape =>
      obtain ⟨x, hx⟩ : ∃ x, s.findProperty? t valueName = some x := by
        have hproperty := hshape
        rw [Schema.isNullable, Bool.and_eq_true, Bool.and_eq_true] at hproperty
        exact Option.isSome_iff_exists.mp hproperty.1.2
      simp only [Schema.cannotMake_iff hshape hx, and_assoc, exists_eq_left']
      rw [nullableWriter, hx]
      dsimp only
      rw [Schema.signature_singleton]
      cases hk : Schema.kind? x.2.type with
      | none => simp [eq_comm]
      | some k =>
        cases hc : s.findConstructor? t [x.2.type] with
        | none => simp [eq_comm]
        | some c => simp
    · next hshape =>
      constructor
      · intro h
        cases h
      · rintro ⟨value, hcannot, -⟩
        exact (hshape hcannot.shape).elim

/-- Otherwise elementary types and nullable wrappers have a writer, and other types have none. -/
theorem isSome_of_writerFor {writer : Option MemberWriter} (h : writerFor s t = .ok writer) :
    writer.isSome = true ↔ s.IsElementary t ∨ s.isNullable t = true := by
  rw [Schema.isElementary_iff]
  rw [writerFor] at h
  cases helementary : (Schema.kind? t).or (s.underlying? t) with
  | some k =>
    rw [helementary] at h
    obtain rfl := Except.ok.inj h
    simp
  | none =>
    rw [helementary] at h
    dsimp only at h
    split at h
    · next hshape =>
      rw [nullableWriter] at h
      split at h
      · cases h
      · split at h
        · obtain rfl := Except.ok.inj h
          simp [hshape]
        · cases h
    · next hshape =>
      obtain rfl := Except.ok.inj h
      simp [hshape]

/-! ## Members -/

/-- The class has no field, or no property, of the name that is asked for. -/
def Request.LacksMember (s : Schema) (r : Request) : Prop :=
  match r.kind with
  | .field => ∀ f ∈ s.fields r.objectType, f.name ≠ r.member
  | .property => ∀ x ∈ s.declarations r.objectType, x.2.name ≠ r.member

/-- A request is for a member of a type, and whether that can be set. A field always can. -/
inductive Request.Names (s : Schema) (r : Request) : Ty → Bool → Prop
  | field {f : FieldDecl} {before after : List FieldDecl} (hkind : r.kind = .field)
      (hname : f.name = r.member) (hsplit : s.fields r.objectType = before ++ f :: after)
      (hbefore : ∀ g ∈ before, g.name ≠ r.member) : Names s r f.type true
  | property {a : Ty} {p : PropertyDecl} (hkind : r.kind = .property) (hname : p.name = r.member)
      (hleads : s.Leads r.objectType (fun _ => true) (a, p)) : Names s r p.type p.hasSetter

/-- What `member?` finds of fields. -/
theorem map_member?_field (hkind : r.kind = .field) :
    (member? s r).map (fun m => (m.type, m.isWritable)) =
      ((s.fields r.objectType).find? fun f => f.name == r.member).map fun f => (f.type, true) := by
  rw [List.find?_eq_bind_findIdx?_getElem?, member?, hkind, Schema.fieldSlot?]
  cases (s.fields r.objectType).findIdx? fun f => f.name == r.member with
  | none => rfl
  | some slot => cases h : (s.fields r.objectType)[slot]? <;> simp [h]

/-- What it finds of properties. -/
theorem map_member?_property (hkind : r.kind = .property) :
    (member? s r).map (fun m => (m.type, m.isWritable)) =
      (s.findProperty? r.objectType r.member).map fun x => (x.2.type, x.2.hasSetter) := by
  rw [member?, hkind]
  cases s.findProperty? r.objectType r.member <;> rfl

theorem member?_eq_none_iff : member? s r = none ↔ r.LacksMember s := by
  rw [Request.LacksMember, ← Option.map_eq_none_iff (f := fun m : Member => (m.type, m.isWritable))]
  cases hkind : r.kind with
  | field => rw [map_member?_field hkind, Option.map_eq_none_iff, List.find?_eq_none]; simp
  | property =>
    rw [map_member?_property hkind, Option.map_eq_none_iff, Schema.findProperty?_eq, List.find?_eq_none]
    simp

theorem names_iff : r.Names s t settable ↔
    ∃ member, member? s r = some member ∧ member.type = t ∧ member.isWritable = settable := by
  have hmap : (∃ member, member? s r = some member ∧ member.type = t ∧ member.isWritable = settable) ↔
      (member? s r).map (fun m => (m.type, m.isWritable)) = some (t, settable) := by
    simp [Option.map_eq_some_iff]
  rw [hmap]
  constructor
  · rintro (⟨hkind, hname, hsplit, hbefore⟩ | ⟨hkind, hname, hleads⟩)
    · rw [map_member?_field hkind, Option.map_eq_some_iff]
      refine ⟨_, List.find?_eq_some_iff_append.mpr ⟨beq_iff_eq.mpr hname, _, _, hsplit, ?_⟩, rfl⟩
      simpa using hbefore
    · rw [map_member?_property hkind, Option.map_eq_some_iff]
      exact ⟨_, Schema.findProperty?_eq_some_iff.mpr ⟨hleads, hname⟩, rfl⟩
  · cases hkind : r.kind with
    | field =>
      rw [map_member?_field hkind, Option.map_eq_some_iff]
      rintro ⟨f, hfind, he⟩
      obtain ⟨rfl, rfl⟩ := Prod.mk.inj he
      obtain ⟨hname, before, after, hsplit, hbefore⟩ := List.find?_eq_some_iff_append.mp hfind
      exact .field hkind (beq_iff_eq.mp hname) hsplit (by simpa using hbefore)
    | property =>
      rw [map_member?_property hkind, Option.map_eq_some_iff]
      rintro ⟨⟨a, p⟩, hfind, he⟩
      obtain ⟨rfl, rfl⟩ := Prod.mk.inj he
      obtain ⟨hleads, hname⟩ := Schema.findProperty?_eq_some_iff.mp hfind
      exact .property hkind hname hleads

/-! ## Requests -/

/-- How a request is refused. -/
inductive Request.Refused (s : Schema) (r : Request) : RequestError → Prop
  | missingMember (h : r.LacksMember s) :
      Refused s r (.missingMember (s.name r.objectType) r.member)
  | missingConstructor {t value : Ty} (hwrites : r.writes = true) (hmember : r.Names s t true)
      (hcannot : s.CannotMake t value) :
      Refused s r (.missingConstructor (s.name t) (s.name value))

/-- A request is refused with these errors, and with no others. -/
theorem make_eq_error_iff : make s hooks r = .error e ↔ r.Refused s e := by
  rw [make]
  cases hmember : member? s r with
  | none =>
    have hlacks := member?_eq_none_iff.mp hmember
    constructor
    · intro h
      obtain rfl := Except.error.inj h
      exact .missingMember hlacks
    · rintro (_ | ⟨-, hnames, -⟩)
      · rfl
      · obtain ⟨member, hsome, -⟩ := names_iff.mp hnames
        cases hmember.symm.trans hsome
  | some member =>
    have hlacks : ¬r.LacksMember s := fun h => by
      cases hmember.symm.trans (member?_eq_none_iff.mpr h)
    have hwriter : r.Refused s e ↔
        (r.writes && member.isWritable) = true ∧ writerFor s member.type = .error e := by
      rw [writerFor_eq_error_iff, Bool.and_eq_true]
      constructor
      · rintro (h | ⟨hwrites, hnames, hcannot⟩)
        · exact (hlacks h).elim
        · obtain ⟨member', hsome, rfl, hwritable⟩ := names_iff.mp hnames
          obtain rfl := Option.some.inj (hmember.symm.trans hsome)
          exact ⟨⟨hwrites, hwritable⟩, _, hcannot, rfl⟩
      · rintro ⟨⟨hwrites, hwritable⟩, value, hcannot, rfl⟩
        exact .missingConstructor hwrites (names_iff.mpr ⟨member, hmember, rfl, hwritable⟩) hcannot
    rw [hwriter]
    dsimp only
    split
    · next hwrites =>
      cases hw : writerFor s member.type with
      | error e' => simp [hwrites, bind, Except.bind]
      | ok writer => simp [bind, Except.bind, pure, Except.pure]
    · next hwrites => simp [hwrites, bind, Except.bind, pure, Except.pure]

/-- **Which mappers are refused.** A request is refused for a member that is not there, or for a nullable
wrapper that is to be written and that mappers do not make. All other requests give a mapper. It can write
its member exactly if that was asked for, if the member can be set, and if it is of an elementary type or
a nullable wrapper. -/
theorem made_or_refused (s : Schema) (hooks : Hooks) (r : Request) :
    (∀ e, make s hooks r = .error e ↔ r.Refused s e) ∧
    ((∃ m, make s hooks r = .ok m) ↔ ∀ e, ¬r.Refused s e) ∧
    ∀ m, make s hooks r = .ok m → ∃ settable, r.Names s m.memberType settable ∧
      (m.canWrite = true ↔ r.writes = true ∧ settable = true ∧
        (s.IsElementary m.memberType ∨ s.isNullable m.memberType = true)) := by
  refine ⟨fun e => make_eq_error_iff, ?_, fun m hm => ?_⟩
  · have herror : ∀ e, ¬r.Refused s e ↔ make s hooks r ≠ .error e :=
      fun e => not_congr make_eq_error_iff.symm
    simp only [herror]
    cases make s hooks r with
    | error e => simp
    | ok m => simp
  · obtain ⟨member, writer, hmember, hwriter, hnone, rfl⟩ := exists_of_make hm
    refine ⟨member.isWritable, names_iff.mpr ⟨member, hmember, rfl, rfl⟩, ?_⟩
    rw [← and_assoc, ← Bool.and_eq_true]
    cases hwrites : r.writes && member.isWritable with
    | false =>
      obtain rfl := hnone hwrites
      simp [canWrite]
    | true =>
      rw [canWrite, isSome_of_writerFor (hwriter hwrites)]
      simp

end MemberMapper

namespace Scene

/-- An enumeration of sizes, before any class. -/
def rackSizes : Schema := { enums := #[⟨"Rack.Size", .integer .i32, [("Small", 0), ("Large", 1)]⟩] }

/-- Drafts of a nullable wrapper of that, which has a constructor from a size, and of a class with
members of different types. -/
def rackDrafts : List ClassDraft :=
  [{ name := "Rack.MaybeSize", isValueType := true, interfaces := [nullableInterface]
     members := [
       .field "m_value" (.enum 0) false,
       .field "m_hasValue" (.scalar .bool) false,
       .property { name := Nullable.absenceName, type := .scalar .bool
                   getter := some (.body .isAbsent) },
       .property { name := valueName, type := .enum 0
                   getter := some (.body (.wrapped "Rack.MaybeSize")) },
       .constructor { params := [.enum 0], isPublic := true, body := .wrapped (.integer .i32) },
       .constructor { params := [], isPublic := true, body := .chain none },
       .static { name := Nullable.sentinelName, type := .any, body := .blank }] },
   { name := "Rack.Hat"
     members := [
       .field "Largest" (.cls 0) true, .field "Count" (.scalar (.integer .i32)) true,
       .field "Label" (.enum 0) true, .auto "Owner" .any, .defaultConstructor] }]

/-- The world in which the enumeration and the classes have been declared. -/
def rack : World := { schema := addDrafts rackSizes rackDrafts }

theorem rack_reached : rack.Reached :=
  declare_reached (.single (.enumerate _)) (by decide +kernel) (by decide +kernel)

/-- A request for a mapper of a member of a hat. -/
def hatRequest (member : String) (kind : MemberKind) (writes : Bool) : MemberMapper.Request :=
  { objectType := .cls 1, member, kind, writes }

/-- A member of an elementary type can be written, and one of another type cannot. A request for a
property that is a field is refused. -/
theorem made_or_refused_rack :
    (∃ m, MemberMapper.make rack.schema {} (hatRequest "Label" .field true) = .ok m ∧
      m.canWrite = true) ∧
    (∃ m, MemberMapper.make rack.schema {} (hatRequest "Owner" .property true) = .ok m ∧
      m.canWrite = false) ∧
    MemberMapper.make rack.schema {} (hatRequest "Count" .property true) =
      .error (.missingMember "Rack.Hat" "Count") := by
  obtain ⟨label, hlabel, hsize⟩ : ∃ m,
      MemberMapper.make rack.schema {} (hatRequest "Label" .field true) = .ok m ∧
        m.memberType = .enum 0 := ⟨_, rfl, rfl⟩
  obtain ⟨owner, howner, hany⟩ : ∃ m,
      MemberMapper.make rack.schema {} (hatRequest "Owner" .property true) = .ok m ∧
        m.memberType = .any := ⟨_, rfl, rfl⟩
  obtain ⟨-, -, hmade⟩ := MemberMapper.made_or_refused rack.schema {} (hatRequest "Label" .field true)
  obtain ⟨-, -, hmade'⟩ :=
    MemberMapper.made_or_refused rack.schema {} (hatRequest "Owner" .property true)
  obtain ⟨hrefused, -, -⟩ :=
    MemberMapper.made_or_refused rack.schema {} (hatRequest "Count" .property true)
  refine ⟨⟨label, hlabel, ?_⟩, ⟨owner, howner, ?_⟩, ?_⟩
  · obtain ⟨settable, hnames, hwrites⟩ := hmade label hlabel
    have hsettable : settable = true := by
      generalize label.memberType = t at hnames
      cases hnames with
      | field => rfl
      | property hkind => cases hkind
    exact hwrites.mpr ⟨rfl, hsettable, .inl (hsize ▸ .inr rfl)⟩
  · obtain ⟨settable, -, hwrites⟩ := hmade' owner howner
    rw [hany] at hwrites
    refine Bool.eq_false_iff.mpr fun h => ?_
    rcases (hwrites.mp h).2.2 with (⟨k, hk⟩ | henum) | hnullable
    · cases hk
    · cases henum
    · cases hnullable
  · have hlacks : ∀ x ∈ rack.schema.declarations (.cls 1), x.2.name ≠ "Count" := by decide
    exact (hrefused _).mpr (.missingMember hlacks)

/-- A mapper that is to write the wrapper of a size is refused, since the wrapper does not have a
constructor from a size. But it has that. -/
theorem rack_refuses_what_is_there : rack.Reached ∧
    ¬(∀ r t value, r.Names rack.schema t true →
      (∃ x, rack.schema.findProperty? t valueName = some x ∧ x.2.type = value) →
      MemberMapper.make rack.schema {} r =
        .error (.missingConstructor (rack.schema.name t) (rack.schema.name value)) →
      ∀ c ∈ rack.schema.constructors t, c.params ≠ [value]) ∧
    MemberMapper.make rack.schema {} (hatRequest "Largest" .field true) =
      .error (.missingConstructor "Rack.MaybeSize" "Rack.Size") ∧
    (rack.schema.findConstructor? (.cls 0) [.enum 0]).map Prod.fst = some 0 ∧
    ∃ m, MemberMapper.make rack.schema {} (hatRequest "Largest" .field false) = .ok m := by
  refine ⟨rack_reached, fun htold => ?_, rfl, rfl, _, rfl⟩
  have hnames : (hatRequest "Largest" .field true).Names rack.schema (.cls 0) true :=
    MemberMapper.names_iff.mpr ⟨_, rfl, rfl, rfl⟩
  exact htold _ (.cls 0) (.enum 0) hnames ⟨_, rfl, rfl⟩ rfl _ List.mem_cons_self rfl

end Scene

end RecordForge
