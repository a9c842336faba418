import RecordForge.Conversion
import RecordForge.Proofs.Text.Endless

/-!
# What values are converted to

A value that is converted to a kind is of that kind, or null where that is the blank of the kind. So it
passes each check for that kind, and it means the same in every heap.
-/

namespace RecordForge

/-- An integer within the range of a kind is of the kind. -/
theorem Integer.kind_of_ofInt? {k : IntegerKind} {n : Int} {i : Integer}
    (h : Integer.ofInt? k n = some i) : i.kind = k := by
  unfold Integer.ofInt? at h
  split at h
  · split at h
    · exact Option.some.inj h ▸ rfl
    · cases h
  · cases h

/-- A scalar that is converted is of the kind. -/
theorem Scalar.kind_of_convert? {x y : Scalar} {k : Kind} (h : x.convert? k = some y) :
    y.kind = k := by
  have hmap : ∀ {α : Type} {f : α → Scalar} {a : Option α}, a.map f = some y →
      (∀ b, (f b).kind = k) → y.kind = k := by
    intro α f a ha hkind
    obtain ⟨b, -, rfl⟩ := Option.map_eq_some_iff.mp ha
    exact hkind b
  cases k with
  | integer k =>
    obtain ⟨n, -, hn⟩ := Option.bind_eq_some_iff.mp h
    obtain ⟨i, hi, rfl⟩ := Option.map_eq_some_iff.mp hn
    exact congrArg Kind.integer (Integer.kind_of_ofInt? hi)
  | single => exact hmap h fun _ => rfl
  | double => exact hmap h fun _ => rfl
  | text => exact Option.some.inj h ▸ rfl
  | bool =>
    have hnumber : ∀ x : Scalar, (x.number?.map fun n => bool n.isNonzero) = some y → y.kind = .bool :=
      fun x hx => hmap hx fun _ => rfl
    cases x with
    | text s => exact hmap (f := bool) h fun _ => rfl
    | char c => cases h
    | bool b => exact hnumber (.bool b) h
    | integer n => exact hnumber (.integer n) h
    | single x => exact hnumber (.single x) h
    | double x => exact hnumber (.double x) h
    | moment m => exact hnumber (.moment m) h
    | guid g => exact hnumber (.guid g) h
  | char =>
    simp only [convert?] at h
    split at h
    · exact hmap h fun _ => rfl
    · cases h
    · split at h
      · exact hmap h fun _ => rfl
      · cases h
  | moment =>
    cases x with
    | text s => exact hmap (f := moment) h fun _ => rfl
    | _ => cases h
  | guid =>
    cases x with
    | text s => exact hmap (f := guid) h fun _ => rfl
    | _ => cases h

/-- A scalar that is the blank of a kind is of the kind. -/
theorem Kind.kind_of_zero? {k : Kind} {x : Scalar} (h : k.zero? = some x) : x.kind = k := by
  cases k with
  | text => cases h
  | _ => exact Option.some.inj h ▸ rfl

/-- A value that is converted is the blank of the kind, or a scalar of it. -/
theorem Value.eq_of_convert? {v u : Value} {k : Kind} (h : v.convert? k = some u) :
    (v = .null ∧ u = k.zero) ∨ ∃ x, u = .scalar x ∧ x.kind = k := by
  cases v with
  | null => exact .inl ⟨rfl, (Option.some.inj h).symm⟩
  | scalar x =>
    rw [convert?] at h
    split at h
    · next hk => exact .inr ⟨x, (Option.some.inj h).symm, hk⟩
    · obtain ⟨y, hy, rfl⟩ := Option.map_eq_some_iff.mp h
      exact .inr ⟨y, rfl, Scalar.kind_of_convert? hy⟩
  | object o => cases h
  | carrier c => cases h

namespace Schema

variable {s : Schema} {h : Heap} {v u : Value} {k : Kind}

theorem convert_eq_ok_iff {lib : TextLibrary} :
    s.convert h v k lib = .ok u ↔ v.convert? k lib = some u := by
  rw [convert]
  cases v.convert? k lib <;> simp

/-- A value whose text has an end is converted, or that ends in a fault. -/
theorem exists_fault_of_convert {lib : TextLibrary} {e : Halt} (hv : ¬v.Endless h)
    (he : s.convert h v k lib = .error e) : ∃ f, e = .fault f := by
  rw [convert] at he
  cases hu : v.convert? k lib with
  | some u => rw [hu] at he; cases he
  | none =>
    obtain ⟨t, ht⟩ := Option.ne_none_iff_exists'.mp (mt detailed_eq_none_iff.mp hv)
    rw [hu, ht] at he
    exact ⟨_, (Except.error.inj he).symm⟩

/-- What a value is converted to means the same in every heap. -/
theorem isLiteral_of_convert (hu : s.convert h v k = .ok u) : u.isLiteral = true := by
  rcases Value.eq_of_convert? (convert_eq_ok_iff.mp hu) with ⟨-, rfl⟩ | ⟨x, rfl, -⟩
  · rw [Kind.zero]
    cases k.zero? <;> rfl
  · rfl

/-- What a value is converted to passes the check for the kind. -/
theorem cast_of_convert (hu : s.convert h v k = .ok u) : s.cast h u (.scalar k) = .ok u := by
  have hscalar : ∀ x : Scalar, x.kind = k → s.cast h (.scalar x) (.scalar k) = .ok (.scalar x) := by
    intro x hx
    rw [cast, if_neg (by simp), if_neg (by simp [Value.isNull]), if_pos]
    rw [admits, Value.kind?, hx]
    exact beq_self_eq_true _
  rcases Value.eq_of_convert? (convert_eq_ok_iff.mp hu) with ⟨-, rfl⟩ | ⟨x, rfl, hx⟩
  · rw [Kind.zero]
    cases hz : k.zero? with
    | some z =>
      exact hscalar z (Kind.kind_of_zero? hz)
    | none =>
      -- only text has no blank, and it may be null
      cases k with
      | text => rfl
      | integer i => cases hz
      | _ => cases hz
  · exact hscalar x hx

end Schema

end RecordForge
