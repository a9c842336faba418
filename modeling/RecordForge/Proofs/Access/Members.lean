import RecordForge.Proofs.Access.Writes

/-!
# Access through a member

A property with a replacement type is read and written through a member of a wrapper: access goes on to
the value in its slot (`World.Forwards`). If that is null then there is no wrapper, and access fails
(`World.Lacks`). If it is an object then access to the property fails for null only where access to the
member does, or where the member reads as null and the property is never null (`World.Reaches`).
-/

namespace RecordForge

open Run

/-! ## Failing for null -/

/-- Only null is refused for being null. -/
theorem Schema.eq_null_of_cast {s : Schema} {h : Heap} {v : Value} {t : Ty} {what : String}
    (hv : s.cast h v t = .error (.nullReference what)) : v = .null := by
  rw [cast] at hv
  split at hv
  · cases hv
  · split at hv
    · next hnull =>
      cases v with
      | null => rfl
      | _ => cases hnull
    · split at hv <;> cases hv

/-- Dispatch that fails has found no body. -/
theorem Schema.bodyOf_ne_nullReference {α : Type} {s : Schema} {t : Ty} {name missing what : String}
    {a : Option (Accessor α)} : s.bodyOf t name missing a ≠ .error (.nullReference what) := by
  rcases a with _ | _ | b
  · exact fun h => nomatch h
  · exact fun h => nomatch h
  · exact fun h => nomatch h

/-- From a world, a run fails since something is null. -/
def World.FailsOnNull {α : Type} (w : World) (x : Run α) : Prop :=
  ∃ what, (x w).1 = .error (.fault (.nullReference what))

namespace World.FailsOnNull

variable {α β : Type} {w : World} {x : Run α} {f : α → Run β} {o : ObjectId} {v : Value} {k : Nat}
variable {t : Ty}

theorem bind (h : w.FailsOnNull (x >>= f)) :
    w.FailsOnNull x ∨ ∃ a w', x w = (.ok a, w') ∧ w'.FailsOnNull (f a) := by
  obtain ⟨what, h⟩ := h
  rw [bind_run] at h
  cases hx : x w with
  | mk r w' =>
    rw [hx] at h
    cases r with
    | error e =>
      obtain rfl := Except.error.inj h
      exact .inl ⟨what, congrArg Prod.fst hx⟩
    | ok a => exact .inr ⟨a, w', rfl, what, h⟩

theorem not_pure {a : α} : ¬w.FailsOnNull (Pure.pure a : Run α) := fun ⟨_, h⟩ => nomatch h

theorem not_fail {e : Fault} (he : ∀ what, e ≠ .nullReference what) :
    ¬w.FailsOnNull (Run.fail e : Run α) := fun ⟨what, h⟩ =>
  he what (Halt.fault.inj (Except.error.inj h))

theorem not_check {q : World → Except Fault α} (h : ∀ what, q w ≠ .error (.nullReference what)) :
    ¬w.FailsOnNull (check q) := by
  rintro ⟨what, hfails⟩
  rw [check_run] at hfails
  cases hq : q w with
  | ok a => rw [hq] at hfails; cases hfails
  | error e =>
    rw [hq] at hfails
    obtain rfl := Halt.fault.inj (Except.error.inj hfails)
    exact h what hq

/-- Access to a slot does not fail for null. -/
theorem not_field : ¬w.FailsOnNull (check (·.field o k)) := by
  refine not_check fun what h => ?_
  rw [World.field] at h
  cases hv : w.heap.field? o k with
  | some v => rw [hv] at h; cases h
  | none => rw [hv] at h; cases h

theorem not_setField : ¬w.FailsOnNull (change (·.setField o k v)) := by
  rintro ⟨what, h⟩
  rw [change_run, World.setField] at h
  cases hv : w.heap.store o k v with
  | some heap => rw [hv] at h; cases h
  | none => rw [hv] at h; cases h

theorem not_isPresent : ¬w.FailsOnNull (isPresent o) := fun h => by
  rcases h.bind with h | ⟨a, w', -, h⟩
  · exact not_field h
  · exact not_pure h

/-- A check of the type fails so for null only. -/
theorem eq_null_of_cast (h : w.FailsOnNull (Run.cast v t)) : v = .null := by
  by_contra hv
  exact not_check (fun what hcast => hv (Schema.eq_null_of_cast hcast)) h

end World.FailsOnNull

/-! ## Accessors that are built in -/

/-- A getter that reads the fields of its own object does not fail for null. -/
theorem Getter.not_failsOnNull {g : Getter} {c : Calls} {w : World} {o : ObjectId}
    (hg : g.isOwn = true) : ¬w.FailsOnNull (g.run c o) := by
  intro h
  cases g with
  | slot k => exact World.FailsOnNull.not_field h
  | isAbsent =>
    rcases h.bind with h | ⟨b, w', -, h⟩
    · exact World.FailsOnNull.not_isPresent h
    · exact World.FailsOnNull.not_pure h
  | wrapped type =>
    rcases h.bind with h | ⟨b, w', -, h⟩
    · exact World.FailsOnNull.not_isPresent h
    · cases b with
      | true => exact World.FailsOnNull.not_field h
      | false =>
        refine World.FailsOnNull.not_fail (e := .nullValue type) (fun what he => ?_) h
        cases he
  | routine _ => cases hg
  | through _ _ _ => cases hg

/-- A setter writes the fields of its own object, and runs no body of a user. -/
def Setter.isOwn : Setter → Bool
  | .slot _ | .slotOf .. | .wrapped _ => true
  | .routine _ | .through .. => false

/-- Such a setter fails for null only if it is given null. -/
theorem Setter.eq_null_of_fails {g : Setter} {c : Calls} {w : World} {o : ObjectId} {v : Value}
    (hg : g.isOwn = true) (h : w.FailsOnNull (g.run c o v)) : v = .null := by
  cases g with
  | slot k => exact (World.FailsOnNull.not_setField h).elim
  | slotOf k t =>
    rcases h.bind with h | ⟨u, w', -, h⟩
    · exact h.eq_null_of_cast
    · exact (World.FailsOnNull.not_setField h).elim
  | wrapped κ =>
    rcases h.bind with h | ⟨u, w', -, h⟩
    · exact h.eq_null_of_cast
    · rcases h.bind with h | ⟨_, w'', -, h⟩
      · exact (World.FailsOnNull.not_setField h).elim
      · exact (World.FailsOnNull.not_setField h).elim
  | routine _ => cases hg
  | through _ _ _ => cases hg

namespace ValueMember

variable {m : ValueMember} {w : World} {y : ObjectId} {u : Value}

/-- A member of an object is read from the fields of the object. -/
def IsOwn (m : ValueMember) (w : World) (x : ObjectId) : Prop :=
  match m.place with
  | .field _ => True
  | .property .. => ∀ g, w.schema.getterFor (w.classOf x) m.name = .ok g → g.isOwn = true

/-- A member of an object is written to the fields of the object. -/
def WritesOwn (m : ValueMember) (w : World) (x : ObjectId) : Prop :=
  match m.place with
  | .field _ => True
  | .property .. => ∀ g, w.schema.setterFor (w.classOf x) m.name = .ok g → g.isOwn = true

/-- A member that is read from the fields of its object is read without failing for null. -/
theorem not_failsOnNull (hm : m.IsOwn w y) (depth : Nat) :
    ¬w.FailsOnNull (m.read (Calls.nested depth) (.object y)) := by
  cases hplace : m.place with
  | field slot =>
    have hread : m.read (Calls.nested depth) (.object y) = check (·.field y slot) := by
      rw [read, hplace]
      rfl
    rw [hread]
    exact World.FailsOnNull.not_field
  | property readable writable =>
    have hread : m.read (Calls.nested depth) (.object y) = (Calls.nested depth).read y m.name := by
      rw [read, hplace]
      rfl
    rw [IsOwn, hplace] at hm
    rw [hread]
    intro h
    cases depth with
    | zero => exact nomatch h
    | succ depth =>
      rcases h.bind with hcheck | ⟨g, w', hg, hrun⟩
      · exact World.FailsOnNull.not_check (fun _ => Schema.bodyOf_ne_nullReference) hcheck
      · obtain ⟨hg, rfl⟩ := check_eq_ok_iff.mp hg
        exact Getter.not_failsOnNull (hm g hg) hrun

/-- One that is written to the fields of its object is written so, unless it is given null. -/
theorem eq_null_of_fails (hm : m.WritesOwn w y) {depth : Nat}
    (h : w.FailsOnNull (m.write (Calls.nested depth) (.object y) u)) : u = .null := by
  cases hplace : m.place with
  | field slot =>
    have hwrite : m.write (Calls.nested depth) (.object y) u = change (·.setField y slot u) := by
      rw [write, hplace]
      rfl
    rw [hwrite] at h
    exact (World.FailsOnNull.not_setField h).elim
  | property readable writable =>
    have hwrite : m.write (Calls.nested depth) (.object y) u =
        (Calls.nested depth).write y m.name u := by
      rw [write, hplace]
      rfl
    rw [WritesOwn, hplace] at hm
    rw [hwrite] at h
    cases depth with
    | zero => exact nomatch h
    | succ depth =>
      rcases h.bind with hcheck | ⟨g, w', hg, hrun⟩
      · exact (World.FailsOnNull.not_check (fun _ => Schema.bodyOf_ne_nullReference) hcheck).elim
      · obtain ⟨hg, rfl⟩ := check_eq_ok_iff.mp hg
        exact Setter.eq_null_of_fails (hm g hg) hrun

end ValueMember

/-! ## Properties that are accessed through a member -/

/-- What is read through a member is checked if it is of another type than the property, unless that is
an enumeration. -/
def Schema.ChecksReads (s : Schema) (q : PropertyDecl) (m : ValueMember) : Prop :=
  m.type ≠ q.type ∧ s.isEnum q.type = false

namespace World

/-- A property of an object is read and written through a member of a value. -/
structure Forwards (w : World) (o : ObjectId) (q : PropertyDecl) (m : ValueMember) (v : Value) :
    Prop where
  reads : ∃ checked : Bool, (checked = true → w.schema.ChecksReads q m) ∧
    ∀ depth, getProperty (depth + 1) o q.name w =
      (m.read (Calls.nested depth) v >>= fun u => if checked then Run.cast u q.type else pure u) w
  writes : m.isWritable = true → ∀ u, w.schema.cast w.heap u q.type = .ok u →
    ∀ depth, setProperty (depth + 1) o q.name u w = m.write (Calls.nested depth) v u w

/-- A property cannot be read or written, since there is no wrapper. -/
structure Lacks (w : World) (o : ObjectId) (q : PropertyDecl) (m : ValueMember) : Prop where
  reads : ∀ depth, w.FailsOnNull (getProperty (depth + 1) o q.name)
  writes : m.isWritable = true → ∀ u, w.schema.cast w.heap u q.type = .ok u →
    ∀ depth, w.FailsOnNull (setProperty (depth + 1) o q.name u)

/-- A property is read and written through a member of a wrapper. Reading it fails for null only if a
body of a user that reads the member does, or if the member reads as null, and that is refused by a
check. Writing to it a value that passes its check fails for null only if a body of a user that writes
the member does, or if null is written. -/
structure Reaches (w : World) (o : ObjectId) (q : PropertyDecl) (m : ValueMember) (y : ObjectId) :
    Prop where
  forwards : w.Forwards o q m (.object y)
  reads : ∀ depth, w.FailsOnNull (getProperty (depth + 1) o q.name) →
    w.FailsOnNull (m.read (Calls.nested depth) (.object y)) ∧ ¬m.IsOwn w y ∨
      (m.read (Calls.nested depth) (.object y) w).1 = .ok .null ∧ w.schema.ChecksReads q m
  writes : m.isWritable = true → ∀ u, w.schema.cast w.heap u q.type = .ok u →
    ∀ depth, w.FailsOnNull (setProperty (depth + 1) o q.name u) →
      w.FailsOnNull (m.write (Calls.nested depth) (.object y) u) ∧
        (¬m.WritesOwn w y ∨ u = .null)

variable {w : World} {o y : ObjectId} {q : PropertyDecl} {m : ValueMember} {v : Value} {k : Nat}
variable {type : Option Ty}

/-- Without a wrapper nothing can be read or written. -/
theorem Forwards.lacks (h : w.Forwards o q m .null) : w.Lacks o q m where
  reads depth := by
    obtain ⟨checked, -, hread⟩ := h.reads
    exact ⟨_, congrArg Prod.fst (hread depth)⟩
  writes hm u hu depth := ⟨_, congrArg Prod.fst (h.writes hm u hu depth)⟩

/-- With one, access goes on to the member. -/
theorem Forwards.reaches (h : w.Forwards o q m (.object y)) : w.Reaches o q m y where
  forwards := h
  reads depth hfails := by
    obtain ⟨checked, hchecked, hread⟩ := h.reads
    rw [FailsOnNull, hread depth] at hfails
    -- either the member fails, or the check of what it gives
    rcases FailsOnNull.bind hfails with hmember | ⟨u, w₁, hu, hcast⟩
    · exact .inl ⟨hmember, fun hown => m.not_failsOnNull hown depth hmember⟩
    · cases checked with
      | false => exact (FailsOnNull.not_pure hcast).elim
      | true =>
        obtain rfl := FailsOnNull.eq_null_of_cast hcast
        exact .inr ⟨congrArg Prod.fst hu, hchecked rfl⟩
  writes hm u hu depth hfails := by
    rw [FailsOnNull, h.writes hm u hu depth] at hfails
    refine ⟨hfails, ?_⟩
    by_cases hown : m.WritesOwn w y
    · exact .inr (ValueMember.eq_null_of_fails hown hfails)
    · exact .inl hown

/-- What the accessors that dispatch finds do with what a slot holds. -/
theorem forwards_of_accessors (htype : ∀ t ∈ type, t = q.type ∧ w.schema.ChecksReads q m)
    (hget : w.schema.getterFor (w.classOf o) q.name = .ok (.through k m type))
    (hset : m.isWritable = true →
      w.schema.setterFor (w.classOf o) q.name = .ok (.through k m q.type))
    (hv : w.heap.field? o k = some v) : w.Forwards o q m v where
  reads := by
    refine ⟨type.isSome, fun h => ?_, fun depth => ?_⟩
    · obtain ⟨t, ht⟩ := Option.isSome_iff_exists.mp h
      exact (htype t ht).2
    · rw [getProperty_run hget, Getter.run, bind_of_ok (check_of_ok (field_eq_ok_iff.mpr hv))]
      cases type with
      | none => rfl
      | some t =>
        obtain ⟨rfl, -⟩ := htype t rfl
        rfl
  writes hm u hu depth := by
    rw [setProperty_run (hset hm), Setter.run, Run.cast, bind_of_ok (check_of_ok hu),
      bind_of_ok (check_of_ok (field_eq_ok_iff.mpr hv))]

end World

end RecordForge
