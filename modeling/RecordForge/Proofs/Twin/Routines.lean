import RecordForge.Proofs.Schema.Literals
import RecordForge.Proofs.Twin.Effects

/-!
# Routines in twin worlds

A routine does in twin worlds the same, if what it calls does: it evaluates its terms to values that
match, shows what matches, and performs the same bodies. There is one lemma for each construct of the
language of bodies; `Twins.Alike` is what they need to know of calls.

The values that are written in a body must mean the same in both worlds; those in the bodies of a
schema do (`Twins.literals`).
-/

namespace RecordForge

open Run

namespace Twins

variable {w₀ : World} {T : Twins w₀} {c : Calls} {s : Trails} {f f' : Frame} {o : ObjectId}
variable {v u : Value}

/-- What calls do in twin worlds, they do alike. -/
structure Alike (w₀ : World) (c : Calls) (s : Trails) : Prop where
  read : ∀ (T : Twins w₀) o name, T.Follows True ⟨c.read o name, s.read o name⟩
    ⟨c.read o name, s.read o name⟩ Match
  write : ∀ (T : Twins w₀) o name {v u}, T.Match v u → T.Follows True
    ⟨c.write o name v, s.write o name v⟩ ⟨c.write o name u, s.write o name u⟩ Same
  construct : ∀ (T : Twins w₀) t k {vs us}, Value.AllMatch T.paired vs us → T.Follows True
    ⟨c.construct t k vs, s.construct t k vs⟩ ⟨c.construct t k us, s.construct t k us⟩ Same
  chain : ∀ (T : Twins w₀) t k o {vs us}, Value.AllMatch T.paired vs us → T.Follows True
    ⟨c.chain t k o vs, s.chain t k o vs⟩ ⟨c.chain t k o us, s.chain t k o us⟩ Same

/-- A value means the same in both worlds. -/
abbrev Constant (T : Twins w₀) (v : Value) : Prop := T.Match v v

theorem Constant.mono {T' : Twins w₀} (hl : T.Leads T') : T.Constant v → T'.Constant v :=
  Value.Matches.mono hl.paired

mutual

/-- The values of a term match. -/
theorem term (hc : Alike w₀ c s) {T : Twins w₀} (hf : f.Matches T.paired f') (t : Term)
    (ht : t.All T.Constant) :
    T.Follows True ⟨t.eval c f, t.trail c s f⟩ ⟨t.eval c f', t.trail c s f'⟩ Match := by
  cases t with
  | value v => exact .pure ht
  | argument index => exact .pure (argument hf index)
  | field name =>
    refine .silent (.thisObject hf) fun T' o o' _ ho => ?_
    subst ho
    exact .readField T' o name
  | property name =>
    refine .after (.thisObject hf) fun T' o o' _ ho => ?_
    subst ho
    exact hc.read T' o name
  | propertyOf target name =>
    rw [Term.eval, Term.trail, Term.eval, Term.trail]
    refine .bind (term hc hf target ht) fun T₁ v u _ hv => .after (.object hv) fun T₂ o o' _ ho => ?_
    subst ho
    exact hc.read T₂ o name
  | this =>
    rw [Term.eval, Term.eval, hf.this]
    refine .pure ?_
    cases f.this with
    | none => exact .null
    | some o => exact .object o
  | className =>
    refine .silent (.thisObject hf) fun T' o o' _ ho => ?_
    subst ho
    refine .silent (.ask (Q := Same) (T'.className_eq o).symm) fun T'' n n' _ hn => ?_
    subst hn
    exact .pure (.scalar _)
  | parameterCount index =>
    refine .silent (.ask (Q := fun T => Option.Rel (Value.AllMatch T.paired)) (parameters?_rel hf index))
      fun T' x y _ hxy => .pure ?_
    cases hxy with
    | none => exact .scalar _
    | some h =>
      rw [Option.elim_some, Option.elim_some, h.length_eq]
      exact .scalar _
  | parameter index i =>
    refine .silent (.ask (Q := fun T => Option.Rel (Value.AllMatch T.paired)) (parameters?_rel hf index))
      fun T' x y _ hxy => .pure ?_
    refine Value.AllMatch.getD ?_ i
    cases hxy with
    | none => exact .nil
    | some h => exact h
  | construct type k args =>
    have hlast : ∀ (T' : Twins w₀) t, T.Leads T' → T'.Follows True
        ⟨Term.evalAll c f args >>= fun vs => c.construct t k vs >>= fun o => Pure.pure (.object o),
          fun w => Term.trailAll c s f args w ++
            following (Term.evalAll c f args) (fun vs => s.construct t k vs) w⟩
        ⟨Term.evalAll c f' args >>= fun us => c.construct t k us >>= fun o => Pure.pure (.object o),
          fun w => Term.trailAll c s f' args w ++
            following (Term.evalAll c f' args) (fun us => s.construct t k us) w⟩ Match := by
      intro T' t hl
      refine .bind (terms hc (hf.mono hl.paired) args (Term.AllList.imp (fun _ => .mono hl) ht))
        fun T₁ vs us _ hvs => .before (hc.construct T₁ t k hvs) fun T₂ o o' _ ho => ?_
      subst ho
      exact .pure (.object o)
    cases type with
    | some t =>
      rw [Term.eval, Term.trail, Term.eval, Term.trail]
      exact hlast T t (.refl T)
    | none =>
      rw [Term.eval, Term.trail, Term.eval, Term.trail]
      refine .after (.classAtHand hf) fun T' t t' hl ht' => ?_
      subst ht'
      exact hlast T' t hl
  | owner =>
    rw [Term.eval, Term.eval, hf.info]
    refine .pure ?_
    cases f.info with
    | none => exact .null
    | some i => exact .object i.owner
  | infoType =>
    rw [Term.eval, Term.eval, hf.info]
    refine .silent (.ask (Q := Same) (by rw [T.schema_eq])) fun T' name name' _ hname => .pure ?_
    subst hname
    cases name with
    | none => exact .null
    | some name => exact .scalar _
  | infoName =>
    rw [Term.eval, Term.eval, hf.info]
    refine .pure ?_
    cases f.info with
    | none => exact .null
    | some i => exact .scalar _
termination_by sizeOf t

/-- So do the values of terms. -/
theorem terms (hc : Alike w₀ c s) {T : Twins w₀} (hf : f.Matches T.paired f') (ts : List Term)
    (hts : Term.AllList T.Constant ts) :
    T.Follows True ⟨Term.evalAll c f ts, Term.trailAll c s f ts⟩
      ⟨Term.evalAll c f' ts, Term.trailAll c s f' ts⟩ fun T' => Value.AllMatch T'.paired := by
  cases ts with
  | nil => exact .pure .nil
  | cons t ts =>
    refine .bind (term hc hf t hts.1) fun T₁ v u hl hv => ?_
    refine .before (terms hc (hf.mono hl.paired) ts (Term.AllList.imp (fun _ => .mono hl) hts.2))
      fun T₂ vs us hl₂ hvs => .pure (.cons (hv.mono hl₂.paired) hvs)
termination_by sizeOf ts

end

section
variable (hc : Alike w₀ c s)
include hc

theorem action (hf : f.Matches T.paired f') (a : Action) (ha : a.All T.Constant) :
    T.Follows True ⟨a.perform c f, a.trail c s f⟩ ⟨a.perform c f', a.trail c s f'⟩ Same := by
  cases a with
  | setField name t =>
    refine .before (term hc hf t ha) fun T₁ v u hl hv => ?_
    refine .silent (.thisObject (hf.mono hl.paired)) fun T₂ o o' hl₂ ho => ?_
    subst ho
    exact .writeField T₂ o name (hv.mono hl₂.paired)
  | setProperty name t =>
    refine .bind (term hc hf t ha) fun T₁ v u hl hv => ?_
    refine .after (.thisObject (hf.mono hl.paired)) fun T₂ o o' hl₂ ho => ?_
    subst ho
    exact hc.write T₂ o name (hv.mono hl₂.paired)
  | setPropertyOf target name t =>
    refine .bind (term hc hf target ha.1) fun T₁ v u hl₁ hv => .after (.object hv) fun T₂ o o' hl₂ ho => ?_
    subst ho
    have hl := hl₁.trans hl₂
    exact .bind (term hc (hf.mono hl.paired) t (ha.2.imp fun _ => .mono hl)) fun T₃ v u _ hv =>
      hc.write T₃ o name hv
  | give t => exact .pure rfl
  | throw message => exact .fail _
  | throwTimes site count message => exact .throwTimes T site count message c
  | panic reason => exact .halt _
  | log t =>
    exact .before (term hc hf t ha) fun T₁ v u _ hv => .display hv fun p q h => .logged h
  | chain type k args =>
    refine .bind (terms hc hf args ha) fun T₁ vs us hl hvs => ?_
    refine .after (.thisObject (hf.mono hl.paired)) fun T₂ o o' hl₂ ho => ?_
    subst ho
    exact hc.chain T₂ type k o (hvs.mono hl₂.paired)
  | setParameters index values =>
    rw [Action.perform, Action.trail, Action.perform, Action.trail]
    rcases carrier?_cases hf index with ⟨hnone, hnone'⟩ | ⟨a, b, hsome, hsome', hab⟩
    · rw [hnone, hnone']
      exact .pure rfl
    · rw [hsome, hsome']
      cases values with
      | none => exact .setParameters hab .none
      | some ts =>
        exact .before (terms hc hf ts (ha ts rfl)) fun T₁ vs us hl hvs =>
          .setParameters (hl.paired _ _ hab) (.some hvs)

/-- The steps of a routine. -/
theorem steps (hf : f.Matches T.paired f') (r : Routine) (hr : r.All T.Constant) :
    T.Follows True ⟨Routine.run c f r, Routine.steps c s f r⟩
      ⟨Routine.run c f' r, Routine.steps c s f' r⟩ Match := by
  induction r generalizing T with
  | nil => exact .pure .null
  | cons a rest ih =>
    have ha := hr a List.mem_cons_self
    have hrest : Routine.All T.Constant rest := fun b hb => hr b (List.mem_cons_of_mem _ hb)
    have hnext : T.Follows True
        ⟨a.perform c f >>= fun _ => Routine.run c f rest, fun w => a.trail c s f w ++
          following (a.perform c f) (fun _ => Routine.steps c s f rest) w⟩
        ⟨a.perform c f' >>= fun _ => Routine.run c f' rest, fun w => a.trail c s f' w ++
          following (a.perform c f') (fun _ => Routine.steps c s f' rest) w⟩ Match :=
      .bind (action hc hf a ha) fun T₁ _ _ hl _ =>
        ih (hf.mono hl.paired) (hrest.imp fun _ => .mono hl)
    cases a with
    | give t => exact term hc hf t ha
    | setField name t => exact hnext
    | setProperty name t => exact hnext
    | setPropertyOf target name t => exact hnext
    | throw message => exact hnext
    | throwTimes site count message => exact hnext
    | panic reason => exact hnext
    | log t => exact hnext
    | chain type k args => exact hnext
    | setParameters index values => exact hnext

theorem routine (hf : f.Matches T.paired f') (r : Routine) (hr : r.All T.Constant) :
    T.Follows True ⟨Routine.run c f r, r.trail c s f⟩ ⟨Routine.run c f' r, r.trail c s f'⟩ Match :=
  .perform r hf (steps hc hf r hr)

end

/-! ## Accessors -/

namespace Follows

theorem holder (m : ValueMember) (hv : T.Match v u) :
    T.Follows True (.silent (m.holder v)) (.silent (m.holder u)) Same := by
  cases hv with
  | object o => exact pure rfl
  | null => exact fail _
  | scalar s => exact fail _
  | carrier h => exact fail _

theorem isPresent (T : Twins w₀) (o : ObjectId) :
    T.Follows True (.silent (Run.isPresent o)) (.silent (Run.isPresent o)) Same := by
  refine silent (field T o _) fun T₁ v u _ hv => pure ?_
  cases hv <;> rfl

theorem present (k : Kind) (o : ObjectId) (hv : T.Match v u) :
    T.Follows True (.silent (Run.present k o v)) (.silent (Run.present k o u)) Same := by
  refine silent (cast _ hv) fun T₁ v u _ hv => ?_
  refine silent (setField T₁ o _ hv) fun T₂ _ _ _ _ => ?_
  exact setField T₂ o _ (.scalar _)

end Follows

section
variable (hc : Alike w₀ c s)
include hc

theorem readMember (m : ValueMember) (hv : T.Match v u) :
    T.Follows True ⟨m.read c v, m.readTrail s v⟩ ⟨m.read c u, m.readTrail s u⟩ Match := by
  refine .after (.holder m hv) fun T' o o' _ ho => ?_
  subst ho
  cases m.place with
  | field k => exact .field T' o k
  | property readable writable => exact hc.read T' o m.name

theorem writeMember (m : ValueMember) (hv : T.Match v u) {new new' : Value} (hnew : T.Match new new') :
    T.Follows True ⟨m.write c v new, m.writeTrail s v new⟩ ⟨m.write c u new', m.writeTrail s u new'⟩
      Same := by
  refine .after (.holder m hv) fun T' o o' hl ho => ?_
  subst ho
  have hnew := hnew.mono hl.paired
  cases m.place with
  | field k => exact .setField T' o k hnew
  | property readable writable => exact hc.write T' o m.name hnew

theorem getter (g : Getter) (hg : g.All T.Constant) :
    T.Follows True ⟨g.run c o, g.trail c s o⟩ ⟨g.run c o, g.trail c s o⟩ Match := by
  cases g with
  | routine body => exact routine hc (.method o .nil) body hg
  | slot k => exact .field T o k
  | isAbsent =>
    refine .silent (.isPresent T o) fun T₁ b b' _ hb => ?_
    subst hb
    exact .pure (.scalar _)
  | wrapped type =>
    refine .silent (.isPresent T o) fun T₁ b b' _ hb => ?_
    subst hb
    cases b with
    | true => exact .field T₁ o _
    | false => exact .fail _
  | through k member type =>
    refine .after (.field T o k) fun T₁ v u _ hv => ?_
    refine .before (readMember hc member hv) fun T₂ v u _ hv => ?_
    cases type with
    | none => exact .pure hv
    | some t => exact .cast t hv

theorem setter (g : Setter) (hg : g.All T.Constant) (hv : T.Match v u) :
    T.Follows True ⟨g.run c o v, g.trail c s o v⟩ ⟨g.run c o u, g.trail c s o u⟩ Same := by
  cases g with
  | routine body => exact .discard (routine hc (.method o (.cons hv .nil)) body hg)
  | slot k => exact .setField T o k hv
  | slotOf k type => exact .silent (.cast type hv) fun T₁ v u _ hv => .setField T₁ o k hv
  | wrapped kind => exact .present kind o hv
  | through k member type =>
    refine .after (.cast type hv) fun T₁ v u _ hv => ?_
    exact .after (.field T₁ o k) fun T₂ holder holder' hl hholder =>
      writeMember hc member hholder (hv.mono hl.paired)

end

end Twins

end RecordForge
