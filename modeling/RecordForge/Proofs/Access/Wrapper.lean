import RecordForge.Nullable
import RecordForge.Proofs.Synthesis.Field
import RecordForge.Proofs.Schema.Literals
import RecordForge.Proofs.Synthesis.Evolution

/-!
# Nullable wrappers as value members

What a nullable wrapper offers as the place of a value, and what dispatch finds on it. A property that
is kept in the value of a wrapper is of the kind of the wrapper, or of an enumeration over that kind. So
the wrapper accepts every value that the property accepts.
-/

namespace RecordForge

namespace Nullable

/-- The class of the nullable wrappers of a kind. -/
def decl (name : String) (k : Kind) (settable : Bool) : ClassDecl :=
  ({} : Schema).finish (draft name k settable)

/-- The member that holds the value of a wrapper. -/
def member (k : Kind) (settable : Bool) : ValueMember :=
  ⟨valueName, .scalar k, .property true settable⟩

end Nullable

namespace Schema

variable {s : Schema} {F : ClassId} {name : String} {k : Kind} {settable : Bool}

section
variable (hF : s.class? F = some (Nullable.decl name k settable))
include hF

theorem lineage_nullable :
    s.lineage (.cls F) = [(.cls F, Nullable.decl name k settable)] := by
  have hancestors : s.ancestors (.cls F) = [.cls F] := by
    simp only [ancestors, bases, decl?, hF, Option.elim_some]
    rfl
  rw [lineage, hancestors]
  simp only [List.filterMap_cons, List.filterMap_nil, decl?, hF, Option.map_some]

/-- The value of a wrapper is read as such. -/
theorem getterFor_nullable : s.getterFor (.cls F) valueName = .ok (.wrapped name) := by
  rw [getterFor, accessor?, lineage_nullable hF]
  rfl

end

/-- The value of a wrapper is written as such. -/
theorem setterFor_nullable (hF : s.class? F = some (Nullable.decl name k true)) :
    s.setterFor (.cls F) valueName = .ok (.wrapped k) := by
  rw [setterFor, accessor?, lineage_nullable hF]
  rfl

/-! ## The types of the properties that are kept in a wrapper -/

/-- A member is chosen because its type matches, or because it is a base. -/
theorem matches_of_pick {desired : Ty} {candidates : List ValueMember} {m : ValueMember}
    (h : s.pick desired candidates = some m) :
    s.isMatch desired m.type = true ∨ s.isBaseMatch desired m.type = true := by
  rw [pick, Option.or_eq_some_iff, Option.or_eq_some_iff] at h
  rcases h with h | ⟨-, h | ⟨-, h⟩⟩
  · have hm := List.find?_some h
    exact .inl (Bool.and_eq_true_iff.mp hm).2
  · have hm := List.find?_some h
    exact .inl hm
  · have hm := List.find?_some h
    exact .inr (Bool.and_eq_true_iff.mp hm).2

theorem isBaseMatch_scalar (t : Ty) : s.isBaseMatch t (.scalar k) = false := by
  have hbases : .scalar k ∉ s.bases t := by
    rw [bases]
    cases s.decl? t with
    | none => exact List.not_mem_nil
    | some d => simp
  simp [isBaseMatch, isSubclass, hbases]

/-- A wrapper of a kind holds the values of properties of that kind, and of enumerations over it. -/
theorem type_of_member {wrapper t : Ty} {m : ValueMember} (h : s.valueMember? wrapper t = some m)
    (hm : m.type = .scalar k) : t = .scalar k ∨ s.underlying? t = some k := by
  have hmatch : s.isMatch t (.scalar k) = true := by
    rw [valueMember?] at h
    split at h
    · rw [← hm]
      have hpick : s.isMatch t m.type = true ∨ s.isBaseMatch t m.type = true := by
        rcases Option.or_eq_some_iff.mp h with h | ⟨-, h⟩
        · exact matches_of_pick h
        · exact matches_of_pick h
      refine hpick.resolve_right fun hbase => ?_
      rw [hm, isBaseMatch_scalar] at hbase
      cases hbase
    · cases h
  rw [isMatch, Bool.or_eq_true] at hmatch
  rcases hmatch with hmatch | hmatch
  · exact .inl (eq_of_beq hmatch).symm
  · cases hu : s.underlying? t with
    | some k' =>
      rw [hu] at hmatch
      exact .inr (congrArg some (Option.some.inj (eq_of_beq hmatch)).symm)
    | none =>
      rw [hu] at hmatch
      cases hmatch

/-! ## Casts -/

variable {h h' : Heap} {v u : Value} {t : Ty}

/-- A value that may be stored is stored as it is. -/
theorem eq_of_cast (hu : s.cast h v t = .ok u) : u = v := by
  rw [cast] at hu
  split at hu
  · exact (Except.ok.inj hu).symm
  · split at hu
    · split at hu
      · cases hu
      · exact (Except.ok.inj hu).symm
    · split at hu
      · exact (Except.ok.inj hu).symm
      · cases hu

/-- Whether a known value may be stored does not depend on what the heap has besides it. -/
theorem cast_of_grows (hg : h.Grows h') (hv : v.Known h) : s.cast h' v t = s.cast h v t := by
  have hadmits : s.admits h' t v = s.admits h t v := by
    cases t with
    | cls c =>
      cases v with
      | object o =>
        show s.isAssignable (classOf h' o) (.cls c) = s.isAssignable (classOf h o) (.cls c)
        rw [hg.classOf_eq hv]
      | null => rfl
      | scalar x => rfl
      | carrier c => rfl
    | any => rfl
    | carrier => rfl
    | scalar k => rfl
    | enum e => rfl
  have htype : s.typeName h' v = s.typeName h v := by
    cases v with
    | null => rfl
    | scalar x => rfl
    | carrier c => rfl
    | object o => exact congrArg s.name (hv.typeOf_eq hg)
  simp only [cast, hadmits, htype]

/-- What a property over a kind accepts, its wrapper accepts. -/
theorem cast_scalar (ht : t = .scalar k ∨ s.underlying? t = some k) (hu : s.cast h v t = .ok u) :
    s.cast h v (.scalar k) = .ok v := by
  rcases ht with rfl | ht
  · rw [hu, eq_of_cast hu]
  · obtain ⟨e, rfl⟩ : ∃ e, t = .enum e := by
      cases t with
      | enum e => exact ⟨e, rfl⟩
      | _ => cases ht
    rw [cast, if_neg (by simp)] at hu
    split at hu
    · cases hu
    · next hnull =>
      split at hu
      · next hadmits =>
        rw [admits, Bool.and_eq_true] at hadmits
        have hkind : v.kind? = some k := (eq_of_beq hadmits.2).trans ht
        rw [cast, if_neg (by simp), if_neg hnull, if_pos]
        rw [admits, hkind]
        exact beq_self_eq_true _
      · cases hu

/-- What a wrapper accepts is no object. -/
theorem isLiteral_of_cast_scalar (hu : s.cast h v (.scalar k) = .ok u) : v.isLiteral = true := by
  cases v with
  | null => rfl
  | scalar x => rfl
  | object o =>
    rw [cast, if_neg (by simp), if_neg (by simp [Value.isNull]), if_neg (by simp [admits, Value.kind?])]
      at hu
    cases hu
  | carrier c =>
    rw [cast, if_neg (by simp), if_neg (by simp [Value.isNull]), if_neg (by simp [admits, Value.kind?])]
      at hu
    cases hu

end Schema

/-- A value that is read from the wrapper of a property needs no check. -/
theorem PropertyField.castType?_eq_none {s : Schema} {f : PropertyField} {m : ValueMember} {k : Kind}
    (ht : f.property.type = .scalar k ∨ s.underlying? f.property.type = some k)
    (hm : m.type = .scalar k) : f.castType? s m = none := by
  rw [castType?, hm]
  rcases ht with ht | ht
  · simp [ht]
  · have henum : s.isEnum f.property.type = true := by
      rw [Schema.underlying?] at ht
      rw [Schema.isEnum]
      cases he : s.enum? f.property.type with
      | none =>
        rw [he] at ht
        cases ht
      | some d => rfl
    simp [henum]

end RecordForge
