import RecordForge.Proofs.Access.Retention
import RecordForge.Proofs.Access.Writes
import RecordForge.Proofs.Construction.Reports

/-!
# Instances come with their wrappers

A new instance of an implementation holds a wrapper in every slot for one, since such a slot is never
blank. Construction plans leave these slots alone, and put into the other slots instances of earlier
classes only. So every instance that is created is equipped, and stays so while others are created
(`World.create_equipped`), unless a body of a user replaces what is in a slot
(`Situation.Respects`).
-/

namespace RecordForge

open Run

/-- Instances that are equipped stay so. -/
def World.Retains (w : World) (c : ClassId) (d : ClassDecl) (w' : World) : Prop :=
  ∀ o, w.Equipped c d o → w'.Equipped c d o

namespace World

variable {w w' w'' : World} {c : ClassId} {d : ClassDecl} {o : ObjectId} {t : Ty}

theorem Retains.refl (w : World) : w.Retains c d w := fun _ h => h

theorem Retains.trans (h : w.Retains c d w') (h' : w'.Retains c d w'') : w.Retains c d w'' :=
  fun o ho => h' o (h o ho)

/-- Instances stay equipped while no object changes. -/
theorem Retains.of_objects (h : w'.heap.objects = w.heap.objects) : w.Retains c d w' := by
  have hobject : ∀ a, w'.heap.object? a = w.heap.object? a := fun a => by
    rw [Heap.object?, Heap.object?, h]
  intro o ho
  refine ⟨?_, fun hr hl hb => ?_⟩
  · rw [hobject]
    exact ho.shape
  · obtain ⟨x, i, hx, hi, hs⟩ := ho.wrappers hr hl hb
    exact ⟨x, i, (Heap.field?_congr (hobject o)).trans hx, (hobject x).trans hi, hs⟩

/-! ## New instances -/

/-- Instances stay equipped when an object is created. -/
theorem newObject_retains (hn : w.newObject t = some (o, w')) : w.Retains c d w' := by
  obtain ⟨-, -, -, -, -, -, hadds, -⟩ := newObject_spec hn
  intro o' ho'
  obtain ⟨i, hi, -⟩ := ho'.shape
  exact ho'.of_fields hadds.grows fun _ =>
    Heap.field?_congr ((hadds.old hi).trans hi.symm)

/-- What a new instance holds in a slot. -/
theorem Hosts.newObject_field (h : w.Hosts c d) (hn : w.newObject (.cls c) = some (o, w')) {k : Nat}
    {f : FieldDecl} (hl : d.layout[k]? = some f) : ∃ v, w'.heap.field? o k = some v ∧
      (f.blank = .null → v = .null) ∧ ∀ F bs, f.blank = .record F bs → ∃ x i, v = .object x ∧
        w'.heap.object? x = some i ∧ i.shape = ⟨F, true, bs.length⟩ := by
  obtain ⟨d', hd', he⟩ := Option.map_eq_some_iff.mp hn
  obtain rfl := Option.some.inj (h.cls.symm.trans hd')
  obtain ⟨rfl, rfl⟩ := Prod.mk.inj he
  rw [h.keeps.reference]
  have hb : (d.layout.map FieldDecl.blank)[k]? = some f.blank := by rw [List.getElem?_map, hl]; rfl
  exact Heap.allocate_field hb

/-- **A new instance is equipped.** -/
theorem Hosts.newObject_equipped (h : w.Hosts c d) (hn : w.newObject (.cls c) = some (o, w')) :
    w'.Equipped c d o := by
  obtain ⟨c', d', hc', hd', -, -, -, i, hi, hs⟩ := newObject_spec hn
  obtain rfl := Ty.cls.inj hc'
  obtain rfl := Option.some.inj (h.cls.symm.trans hd')
  rw [h.keeps.reference] at hs
  refine ⟨⟨i, hi, hs⟩, fun {name k m type f F bs} _ hl hb => ?_⟩
  obtain ⟨v, hv, -, hrecord⟩ := h.newObject_field hn hl
  obtain ⟨y, j, rfl, hj, hs⟩ := hrecord F bs hb
  exact ⟨y, j, hv, hj, hs⟩

end World

/-! ## Runs that leave instances equipped -/

/-- From a world, a run leaves instances equipped, however it ends. -/
def Run.Retaining {α : Type} (c : ClassId) (d : ClassDecl) (w : World) (x : Run α) : Prop :=
  w.Retains c d (x w).2

/-! ## Creations -/

namespace Situation

variable {c : ClassId} {d : ClassDecl}

/-- The bodies of users that are run in the course of an act leave instances equipped. -/
def Respects (c : ClassId) (d : ClassDecl) (m : Situation) : Prop :=
  ∀ m', m.Meets m' → m'.act.isUser = true →
    ∀ depth, Run.Retaining c d m'.world (m'.act.run (Calls.nested depth))

end Situation

/-- What instances of an implementation are equipped with. Their own plans store into slots that are
blank. -/
def Custody.equipment (c : ClassId) (d : ClassDecl) : Custody c d where
  Inv w := w.Hosts c d
  Guards w o := w.classOf o = .cls c
  Allows step := step.slot < d.ownStart ∨
    ∃ ctor ∈ d.constructors, ∃ p, ctor.body = .plan p ∧ step ∈ p.steps
  Keeps w w' := w.Retains c d w'
  hosts hw := hw
  inv := World.Hosts.tends
  refl := World.Retains.refl
  trans := World.Retains.trans
  of_objects := World.Retains.of_objects
  allocate _ hn := World.newObject_retains hn
  former htends ho h := (htends.heap.classOf_eq ho).symm.trans h
  own {w w' t o} hw hn ho := by
    obtain ⟨c', d', rfl, -, -, -, -, i, hi, hs⟩ := World.newObject_spec hn
    have hclass : w'.classOf o = .cls c' := World.classOf_of_shape hi hs
    exact ⟨hclass.symm.trans ho, fun ctor hctor p hp step hstep => .inr ⟨ctor, hctor, p, hp, hstep⟩⟩
  above := .inl
  store {w w₁ w₂ o step cs cs' v depth} hw ho hallows hbuild hw' hv hset := by
    intro o' ho'
    have hw₁ := hw.tends hw'
    refine ho'.store hw₁.tidy.heap hv hset fun he {name m type} hr => ?_
    subst he
    have hclass : w.classOf o = .cls c := (hw'.heap.classOf_eq ho).symm.trans ho'.classOf
    rcases hallows hclass with hlt | ⟨ctor, hctor, p, hp, hstep⟩
    · exact (Nat.not_le_of_lt hlt (hw.keeps.own hr rfl)).elim
    · exact hw.keeps.planned ctor hctor p hp step hstep

/-- **A creation equips its instance**, and leaves all instances equipped, however it ends, unless a
body of a user replaces what is in a slot. -/
theorem World.create_equipped {w w' : World} {c : ClassId} {d : ClassDecl} (hw : w.Hosts c d)
    {x : Descriptor} (hx : x.product = .cls c) {given : Option CarrierId}
    (hgiven : ∀ k ∈ given, (Value.carrier k).Known w.heap)
    (hbodies : ∀ act ∈ x.creating given, Situation.Respects c d ⟨w, act, []⟩) {depth : Nat}
    {r : Except Halt Creation} (h : Run.create depth x given w = (r, w')) :
    w.Tends w' ∧ w.Retains c d w' ∧ ∀ o, r = .ok (.created o) → w'.Equipped c d o := by
  obtain ⟨htends, hretains⟩ := (Custody.equipment c d).create_retains hw hgiven hbodies h
  refine ⟨htends, hretains, ?_⟩
  rintro o rfl
  obtain ⟨k, args, hact, hconstruct⟩ := create_created h
  obtain ⟨w₁, hn, hlater⟩ := (Custody.equipment c d).constructed_retains hw
    (Custody.known_creating hgiven hact) (hbodies _ hact) hconstruct
  rw [hx] at hn
  exact hlater o (hw.newObject_equipped hn)

/-- If no body of a user is run in the course of an act, then instances stay equipped. -/
theorem Situation.Respects.of_survey {n levels : Nat} {c : ClassId} {d : ClassDecl} {m : Situation}
    (h : survey (Calls.nested n) (fun m => !m.act.isUser) levels m = true) : m.Respects c d :=
  Leaves.of_survey (R := fun w w' => w.Retains c d w') h

end RecordForge
