import RecordForge.Proofs.Access.Places
import RecordForge.Proofs.Construction.Success
import RecordForge.Proofs.Scene.Tidy

/-!
# What creations leave to instances

A creation stores values into the objects that it builds, and into no others, unless a body of a user
does. So what instances have that exist already, they keep. A `Custody` is a relation between worlds
that says so: it holds as long as no object changes, as new objects are created, and as a step of a plan
stores its value into an object, where the steps that are run on the instances in question are those of
their own plans, and of plans of classes above.

Then it holds of every creation, to any depth of nested calls (`Custody.nested_retains`), provided that
the bodies of users that are run in its course comply (`Situation.Leaves`).
-/

namespace RecordForge

open Run

/-- A world that knows the class of an implementation. -/
structure World.Hosts (w : World) (c : ClassId) (d : ClassDecl) : Prop where
  sound : w.quiet.Sound
  sorted : w.quiet.Sorted
  tidy : w.Tidy
  cls : w.schema.class? c = some d
  keeps : d.Keeps w.schema

/-- A type is a class whose fields are among those above the slots of an implementation. -/
def World.Above (w : World) (d : ClassDecl) (t : Ty) : Prop :=
  ∃ d', w.schema.decl? t = some d' ∧ d'.layout.length ≤ d.ownStart

/-- The bodies of users that are run in the course of an act comply with a relation between worlds. -/
def Situation.Leaves (R : World → World → Prop) (m : Situation) : Prop :=
  ∀ m', m.Meets m' → m'.act.isUser = true →
    ∀ depth, R m'.world (m'.act.run (Calls.nested depth) m'.world).2

theorem Situation.Leaves.starts {R : World → World → Prop} {m m' : Situation} (h : m.Leaves R)
    (hs : m.Starts m') : m'.Leaves R := fun m₁ h₁ => h m₁ ((Meets.single hs).trans h₁)

/-- If no body of a user is run in the course of an act, then all comply. -/
theorem Situation.Leaves.of_survey {R : World → World → Prop} {n levels : Nat} {m : Situation}
    (h : Situation.survey (Calls.nested n) (fun m => !m.act.isUser) levels m = true) : m.Leaves R := by
  intro m' hm hu
  have hcheck := (Situation.survey_meets h hm).2
  rw [hu] at hcheck
  cases hcheck

namespace World

variable {w w' : World} {c : ClassId} {d : ClassDecl} {t : Ty}

theorem Above.mono (h : w.Above d t) (he : w.schema.Extends w'.schema) : w'.Above d t := by
  obtain ⟨d', hd', hle⟩ := h
  exact ⟨d', Schema.decl?_mono he hd', hle⟩

namespace Hosts

theorem ready (h : w.Hosts c d) : w.Ready 0 :=
  ⟨h.sound, h.sorted, fun _ hb => (Nat.not_lt_zero _ hb).elim, Nat.zero_le _⟩

theorem tends (h : w.Hosts c d) (hw : w.Tends w') : w'.Hosts c d := by
  have hleads := hw.leads h.sound
  have hready := h.ready.leads hleads
  have he := (hleads.evolves h.ready).schema
  exact ⟨hready.sound, hready.sorted, hw.tidy h.sound h.tidy, he.classes h.cls, h.keeps.mono he⟩

theorem inv (h : w.Hosts c d) : Regime.tidy.Inv w := ⟨h.sound, h.tidy⟩

/-- What the plans of the class refer to is there. -/
theorem supports (h : w.Hosts c d) {p : ConstructionPlan}
    (hp : ∃ ctor ∈ d.constructors, ctor.body = .plan p) : w.Supports c d p := by
  obtain ⟨ctor, hctor, hp⟩ := hp
  exact h.sound.supports h.sorted (fun _ => rfl) h.cls hctor hp

/-- What the plans of the class mention is there. -/
theorem steps_known (h : w.Hosts c d) {p : ConstructionPlan}
    (hp : ∃ ctor ∈ d.constructors, ctor.body = .plan p) :
    ∀ step ∈ p.steps, step.All (·.Known w.heap) := by
  obtain ⟨ctor, hctor, hp⟩ := hp
  have hall := (h.tidy.literals (.cls c) d h.cls).constructors ctor hctor
  rw [hp] at hall
  exact hall

/-- A run that returns leads to a world that knows the class. -/
theorem next {α : Type} {x : Run α} {a : α} {Q : World → α → Prop} (h : w.Hosts c d)
    (hx : Regime.tidy.Keeps w x Q) (hrun : x w = (.ok a, w')) :
    w'.Hosts c d ∧ w.Tends w' ∧ Q w' a := by
  obtain ⟨hleads, hresult⟩ := hx
  rw [hrun] at hleads hresult
  exact ⟨h.tends hleads, hleads, hresult a rfl⟩

end Hosts

end World

/-! ## Relations between worlds -/

/-- What creations leave to instances of an implementation: a relation between worlds, the instances that
it is about, and the steps that may be run on them. -/
structure Custody (c : ClassId) (d : ClassDecl) where
  Inv : World → Prop
  Guards : World → ObjectId → Prop
  Allows : BuildStep → Prop
  Keeps : World → World → Prop
  hosts : ∀ {w}, Inv w → w.Hosts c d
  inv : ∀ {w w'}, Inv w → w.Tends w' → Inv w'
  refl : ∀ w, Keeps w w
  trans : ∀ {w₁ w₂ w₃}, Keeps w₁ w₂ → Keeps w₂ w₃ → Keeps w₁ w₃
  of_objects : ∀ {w w'}, w'.heap.objects = w.heap.objects → Keeps w w'
  allocate : ∀ {w w' t o}, Inv w → w.newObject t = some (o, w') → Keeps w w'
  /-- An instance is one from the beginning. -/
  former : ∀ {w w' o}, w.Tends w' → (Value.object o).Known w.heap → Guards w' o → Guards w o
  /-- A new instance is built by a plan of its class. -/
  own : ∀ {w w' t o}, Inv w → w.newObject t = some (o, w') → Guards w' o →
    t = .cls c ∧ ∀ ctor ∈ d.constructors, ∀ p, ctor.body = .plan p → ∀ step ∈ p.steps, Allows step
  above : ∀ {step}, step.slot < d.ownStart → Allows step
  store : ∀ {w w₁ w₂ o step cs cs' v depth}, Inv w → (Value.object o).Known w.heap →
    (Guards w o → Allows step) → step.build (Calls.nested depth) cs w = (.ok (v, cs'), w₁) →
    w.Tends w₁ → v.Known w₁.heap → w₁.setField o step.slot v = .ok w₂ → Keeps w₁ w₂

namespace Custody

variable {c : ClassId} {d : ClassDecl} (G : Custody c d)

/-- From a world, a run leaves to instances what they have, however it ends. -/
def Retains {α : Type} (w : World) (x : Run α) : Prop := G.Keeps w (x w).2

variable {G} {w w' : World}

namespace Retains

variable {α β : Type} {x : Run α} {f : α → Run β}

theorem bind (hx : G.Retains w x) (hf : ∀ a w', x w = (.ok a, w') → G.Retains w' (f a)) :
    G.Retains w (x >>= f) := by
  rw [Retains, bind_run]
  rw [Retains] at hx
  cases hrun : x w with
  | mk r w' =>
    rw [hrun] at hx
    cases r with
    | error e => exact hx
    | ok a => exact G.trans hx (hf a w' hrun)

theorem of_objects (h : (x w).2.heap.objects = w.heap.objects) : G.Retains w x := G.of_objects h

theorem pure (a : α) : G.Retains w (Pure.pure a) := G.refl w

theorem fail (e : Fault) : G.Retains w (Run.fail e : Run α) := G.refl w

theorem check (q : World → Except Fault α) : G.Retains w (Run.check q) := by
  rw [Retains, check_run]
  split <;> exact G.refl w

theorem withParameters {carrier : CarrierId} {parameters : Option (List Value)}
    (hx : G.Retains (w.hold carrier parameters) x) :
    G.Retains w (Run.withParameters carrier parameters x) := by
  rw [Retains, withParameters_run]
  have hhold : G.Keeps w (w.hold carrier parameters) := G.of_objects (by cases parameters <;> rfl)
  exact G.trans (G.trans hhold hx) (G.of_objects (by cases parameters <;> rfl))

theorem take (cs : Carriers) (source : CarrierSource) : G.Retains w (cs.take source) := by
  obtain ⟨k, cs', carriers, h⟩ := cs.take_spec source w
  rw [Retains, h]
  exact G.of_objects rfl

theorem resolve (l : LookupId) : G.Retains w (Run.resolve l) := by
  rw [Retains, resolve_run]
  cases h : w.resolve l with
  | ok xw =>
    obtain ⟨x, w'⟩ := xw
    obtain ⟨-, hheap⟩ := World.resolve_grows h
    exact G.of_objects (by rw [hheap])
  | error e => exact G.refl w

theorem load (parameters : Option (List Value)) (a : Operand) : G.Retains w (a.load parameters) := by
  cases a with
  | literal v => exact .pure v
  | parameter index type =>
    rw [Operand.load]
    split
    · exact .check _
    · exact .fail _

theorem loadAll (parameters : Option (List Value)) (operands : List Operand) :
    G.Retains w (Operand.loadAll parameters operands) := by
  induction operands generalizing w with
  | nil => exact .pure _
  | cons a operands ih =>
    exact (load parameters a).bind fun _ _ _ => ih.bind fun _ _ _ => .pure _

theorem arguments (b : BaseCall) (cs : Carriers) : G.Retains w (b.arguments cs) := by
  rw [BaseCall.arguments]
  split
  · exact (take cs .argument).bind fun _ _ _ => .pure _
  · exact .pure _

theorem tell (x : Descriptor) (e : Fault) : G.Retains w (x.tell e) := by
  rw [Retains, tell_run]
  exact G.of_objects rfl

end Retains

theorem next {α : Type} {x : Run α} {a : α} {Q : World → α → Prop} (h : G.Inv w)
    (hx : Regime.tidy.Keeps w x Q) (hrun : x w = (.ok a, w')) : G.Inv w' ∧ w.Tends w' ∧ Q w' a := by
  obtain ⟨-, htends, ha⟩ := (G.hosts h).next hx hrun
  exact ⟨G.inv h htends, htends, ha⟩

/-! ## Bodies that are run on an instance -/

/-- If the object is one of the instances then the steps of a plan may be run on it, and other
constructors that the body runs are those of classes above. -/
def Suits (G : Custody c d) (w : World) (o : ObjectId) (b : ConstructorBody) : Prop :=
  G.Guards w o →
    match b with
    | .plan p => (∀ step ∈ p.steps, G.Allows step) ∧ ∀ b ∈ p.base, w.Above d b.target
    | .chain (some (t, _)) => w.Above d t
    | _ => True

section
variable {o : ObjectId} {t : Ty} {k n : Nat} {decl : ConstructorDecl}

/-- The constructors of an implementation suit its new instances. -/
theorem suits_of_own (h : G.Inv w) (hn : w.newObject t = some (o, w'))
    (hd : w.schema.constructorFor t k n = .ok decl) : G.Suits w' o decl.body := by
  intro ho
  obtain ⟨rfl, hallows⟩ := G.own h hn ho
  obtain ⟨c', d', -, -, hrest, -⟩ := World.newObject_spec hn
  obtain ⟨hget, -⟩ := Schema.constructorFor_eq_ok_iff.mp hd
  obtain ⟨d', hd', hmem⟩ := Schema.mem_constructors hget
  obtain rfl := Option.some.inj ((G.hosts h).cls.symm.trans hd')
  obtain ⟨p, hp⟩ := (G.hosts h).keeps.plans decl hmem
  rw [hp]
  refine ⟨hallows decl hmem p hp, fun b hb => ?_⟩
  rw [hrest]
  exact (G.hosts h).keeps.base decl hmem p hp b hb

/-- The constructors of classes above suit all instances. -/
theorem suits_of_above (h : G.Inv w) (habove : G.Guards w o → w.Above d t)
    (hd : w.schema.constructorFor t k n = .ok decl) : G.Suits w o decl.body := by
  intro ho
  obtain ⟨d', hd', hle⟩ := habove ho
  obtain ⟨hget, -⟩ := Schema.constructorFor_eq_ok_iff.mp hd
  obtain ⟨d'', hd'', hmem⟩ := Schema.mem_constructors hget
  obtain rfl := Option.some.inj (hd'.symm.trans hd'')
  obtain ⟨a, rfl, -⟩ := Schema.lt_size_of_decl? hd'
  have habove' : ∀ {a d₂}, w.schema.class? a = some d₂ → d₂.layout.length ≤ d'.layout.length →
      w.Above d (.cls a) := fun hd₂ hle₂ => ⟨_, hd₂, Nat.le_trans hle₂ hle⟩
  -- its plan builds its own fields and those above, so none of the implementation
  cases hbody : decl.body with
  | plan p =>
    have hsupports : w.Supports a d' p :=
      (G.hosts h).sound.supports (G.hosts h).sorted (fun _ => rfl) hd' hmem hbody
    refine ⟨fun step hstep => G.above (Nat.lt_of_lt_of_le (hsupports.bound step hstep) hle),
      fun b hb => ?_⟩
    obtain ⟨a', d₂, -, htarget, -, hd₂, -, -, hle₂⟩ := hsupports.base b hb
    exact htarget ▸ habove' hd₂ hle₂
  | chain base =>
    cases base with
    | none => trivial
    | some tk =>
      obtain ⟨t', k'⟩ := tk
      obtain ⟨a', d₂, -, rfl, -, hd₂, -, -, hle₂⟩ := (G.hosts h).ready.chains hd' hmem hbody
      exact habove' hd₂ hle₂
  | routine r => trivial
  | wrapped κ => trivial

end

/-! ## Creations -/

/-- Down to a depth, constructors that are run leave to instances what they have. -/
structure CallsRetain (G : Custody c d) (depth : Nat) : Prop where
  construct : ∀ {w t k args os}, G.Inv w → (∀ v ∈ args, v.Known w.heap) →
    Situation.Leaves G.Keeps ⟨w, .construct t k args, os⟩ →
    G.Retains w ((Calls.nested depth).construct t k args)
  chain : ∀ {w t k o args os}, G.Inv w → (Value.object o).Known w.heap →
    (∀ v ∈ args, v.Known w.heap) → (G.Guards w o → w.Above d t) →
    Situation.Leaves G.Keeps ⟨w, .chain t k o args, os⟩ →
    G.Retains w ((Calls.nested depth).chain t k o args)

section
variable {depth : Nat} (hc : G.CallsRetain depth) (hw : G.Inv w)
variable {o : ObjectId} {os : List ObjectId} {step : BuildStep} {cs : Carriers} {args : List Value}
variable {p : ConstructionPlan} {t : Ty} {k : Nat} {decl : ConstructorDecl}

/-- What is handed to the factory constructor of a descriptor is there, if the carrier is. -/
theorem known_given {x : Descriptor} {carrier : CarrierId} {h : Heap}
    (hk : (Value.carrier carrier).Known h) : ∀ v ∈ x.given carrier, v.Known h := by
  intro v hv
  rw [Descriptor.given] at hv
  split at hv
  · exact List.mem_singleton.mp hv ▸ hk
  · cases hv

include hc hw

theorem guarded_retains {x : Descriptor} {k : Nat} (hargs : ∀ v ∈ args, v.Known w.heap)
    (h : Situation.Leaves G.Keeps ⟨w, .construct x.product k args, os⟩) :
    G.Retains w (x.guarded (Calls.nested depth) k args) := by
  have houtcome : G.Retains w
      (Run.outcome ((Calls.nested depth).construct x.product k args)) := hc.construct hw hargs h
  refine houtcome.bind fun r w' _ => ?_
  cases r with
  | ok o => exact .pure _
  | error e =>
    cases e with
    | fault e => exact .tell x e
    | panic reason => exact .tell x _
    | exhausted => exact .of_objects rfl

theorem createWith_retains {x : Descriptor} {carrier : CarrierId}
    (hk : (Value.carrier carrier).Known w.heap)
    (h : ∀ k, x.factoryConstructor = some k →
      Situation.Leaves G.Keeps ⟨w, .construct x.product k (x.given carrier), os⟩) :
    G.Retains w (x.createWith (Calls.nested depth) carrier) := by
  rw [Descriptor.createWith]
  cases hf : x.factoryConstructor with
  | none => exact .pure _
  | some k => exact guarded_retains hc hw (known_given hk) (h k hf)

theorem build_retains (hcs : Regime.tidy.Carries w cs) (hstep : step.All (·.Known w.heap))
    (h : Situation.Leaves G.Keeps ⟨w, .build o step cs, os⟩) :
    G.Retains w (step.build (Calls.nested depth) cs) := by
  have hinv := (G.hosts hw).inv
  rw [BuildStep.build]
  cases hs : step.source with
  | direct t k operands =>
    have hload := Regime.keeps_loadAll (G := Regime.tidy) hinv hstep.parameters
      (hstep.literals t k operands hs)
    refine (Retains.loadAll step.parameters operands).bind fun values w₁ hl => ?_
    obtain ⟨hw₁, -, hvalues⟩ := next hw hload hl
    exact (hc.construct hw₁ hvalues (h.starts (.direct hs hl))).bind fun _ _ _ => .pure _
  | withCarrier t k source =>
    refine (Retains.take cs source).bind fun r w₁ ht => ?_
    obtain ⟨hw₁, hw', hk, -⟩ := next hw (Regime.keeps_take source hinv hcs) ht
    have hhold : w₁.Tends (w₁.hold r.1 step.parameters) := Regime.leads_hold (G.hosts hw₁).inv hk
      fun vs hvs v hv => (hstep.parameters vs hvs v hv).mono hw'.heap
    have hargs : ∀ v ∈ [Value.carrier r.1], v.Known (w₁.hold r.1 step.parameters).heap := fun v hv =>
      List.mem_singleton.mp hv ▸ Value.Known.mono hhold.heap hk
    exact (hc.construct (G.inv hw₁ hhold) hargs (h.starts (.withCarrier hs ht))).withParameters.bind
      fun _ _ _ => .pure _
  | lookup l source =>
    refine (Retains.resolve l).bind fun x w₁ hr => ?_
    obtain ⟨hw₁, hw', -⟩ := next hw (Regime.keeps_resolve hinv) hr
    refine (Retains.take cs source).bind fun r w₂ ht => ?_
    obtain ⟨hw₂, hw'', hk, -⟩ :=
      next hw₁ (Regime.keeps_take source (G.hosts hw₁).inv (hcs.mono hw')) ht
    have hhold : w₂.Tends (w₂.hold r.1 step.parameters) := Regime.leads_hold (G.hosts hw₂).inv hk
      fun vs hvs v hv => ((hstep.parameters vs hvs v hv).mono hw'.heap).mono hw''.heap
    have hcreate := createWith_retains (x := x) hc (G.inv hw₂ hhold) (Value.Known.mono hhold.heap hk)
      fun k hk => h.starts (.lookup hs (resolve_eq_ok_iff.mp hr) ht hk)
    exact hcreate.withParameters.bind fun _ _ _ => .bind (.of_objects rfl) fun _ _ _ => .pure _

/-- A step that may be run on the object leaves to instances what they have. -/
theorem step_retains (hcs : Regime.tidy.Carries w cs) (ho : (Value.object o).Known w.heap)
    (hstep : step.All (·.Known w.heap)) (hallows : G.Guards w o → G.Allows step)
    (h : Situation.Leaves G.Keeps ⟨w, .build o step cs, os⟩) :
    G.Retains w (step.run (Calls.nested depth) o cs) := by
  refine (build_retains hc hw hcs hstep h).bind fun r w₁ hbuild => ?_
  have hcalls := Regime.tidy.nested_lawful depth
  obtain ⟨-, hw', hv, -⟩ := next hw (Regime.keeps_build hcalls (G.hosts hw).inv hcs hstep) hbuild
  refine Retains.bind ?_ fun _ _ _ => .pure _
  rw [Retains, change_run]
  cases hset : w₁.setField o step.slot r.1 with
  | error e => exact G.refl w₁
  | ok w₂ => exact G.store hw ho hallows hbuild hw' hv hset

omit hw in
/-- Steps of a plan, one after the other. -/
theorem steps_retain (h : Situation.Leaves G.Keeps ⟨w, .body o args (.plan p), os⟩)
    (before : List BuildStep) {steps after : List BuildStep} (hp : p.steps = before ++ (steps ++ after))
    (hbefore : Returns (fun c => BuildStep.runAll c o before (p.carriers args)) w cs w')
    (hw' : G.Inv w') (hcs : Regime.tidy.Carries w' cs) (ho : (Value.object o).Known w'.heap)
    (hsteps : ∀ step ∈ steps, step.All (·.Known w'.heap))
    (hallows : G.Guards w' o → ∀ step ∈ steps, G.Allows step) :
    G.Retains w' (BuildStep.runAll (Calls.nested depth) o steps cs) := by
  -- a step is met after those before it, so these are kept along
  induction steps generalizing before cs w' with
  | nil => exact .pure _
  | cons step steps ih =>
    have hstep := hsteps step List.mem_cons_self
    refine (step_retains hc hw' hcs ho hstep (fun hg => hallows hg step List.mem_cons_self)
      (h.starts (.build hp hbefore))).bind fun cs' w₁ hrun => ?_
    have hcalls := Regime.tidy.nested_lawful depth
    obtain ⟨hw₁, htends, hcs'⟩ :=
      next hw' (Regime.keeps_step hcalls (G.hosts hw').inv ho hcs hstep) hrun
    refine ih (before ++ [step]) (by rw [hp, List.append_assoc]; rfl) ?_ hw₁ hcs'
      (ho.mono htends.heap) (fun s hs => (hsteps s (List.mem_cons_of_mem _ hs)).imp
        fun _ hv => hv.mono htends.heap)
      fun hg s hs => hallows (G.former htends ho hg) s (List.mem_cons_of_mem _ hs)
    simp only [BuildStep.runAll_concat]
    exact hbefore.bind (.of_step hrun)

omit hc hw in
/-- Telling a value its property leaves to instances what they have, as far as the receiver does. -/
theorem info_retains {i : InfoStep} (h : Situation.Leaves G.Keeps ⟨w, .inform o i, os⟩) :
    G.Retains w (i.run (Calls.nested depth) o) := by
  rw [InfoStep.run]
  refine (Retains.check _).bind fun v w₁ hv => ?_
  obtain ⟨hv, rfl⟩ := check_eq_ok_iff.mp hv
  cases v with
  | object target =>
    refine Retains.bind (.of_objects rfl) fun body w₂ hbody => ?_
    obtain ⟨hreceiver, rfl⟩ := pure_eq_ok_iff.mp hbody
    cases body with
    | some body => exact h.starts (.inform_receiver hv hreceiver) _ .refl rfl depth
    | none => exact .bind (.of_objects rfl) fun _ _ _ => .fail _
  | null => exact .fail _
  | scalar s => exact .fail _
  | carrier k => exact .fail _

omit hc hw in
/-- So does telling all of them. -/
theorem infos_retain (h : Situation.Leaves G.Keeps ⟨w, .body o args (.plan p), os⟩)
    (hsteps : Returns (fun c => BuildStep.runAll c o p.steps (p.carriers args)) w cs w')
    (before : List InfoStep) {is after : List InfoStep} (hp : p.infos = before ++ (is ++ after))
    {w₂ : World} (hbefore : Returns (fun c => before.forM (InfoStep.run c o)) w' () w₂) :
    G.Retains w₂ (is.forM (InfoStep.run (Calls.nested depth) o)) := by
  induction is generalizing before w₂ with
  | nil => exact .pure _
  | cons i is ih =>
    show G.Retains w₂ (i.run (Calls.nested depth) o >>= fun _ =>
      is.forM (InfoStep.run (Calls.nested depth) o))
    refine (info_retains (h.starts (.inform hp hsteps hbefore))).bind fun _ w₃ hrun => ?_
    refine ih (before ++ [i]) (by rw [hp, List.append_assoc]; rfl) ?_
    simp only [InfoStep.runAll_concat]
    exact hbefore.bind (.of_info hrun)

omit hc in
/-- The arguments for the constructor of the abstract class are there. -/
theorem keeps_arguments (b : BaseCall) (hcs : Regime.tidy.Carries w cs) :
    Regime.tidy.Keeps w (b.arguments cs) fun w' vs => ∀ v ∈ vs, v.Known w'.heap := by
  have hinv := (G.hosts hw).inv
  rw [BaseCall.arguments]
  split
  · refine (Regime.keeps_take .argument hinv hcs).bind hinv fun w₁ r _ _ hr => .pure fun v hv => ?_
    exact List.mem_singleton.mp hv ▸ hr.1
  · exact .pure fun v hv => (List.not_mem_nil hv).elim

omit hw in
/-- What a plan does from one of its steps on. -/
theorem runFrom_retains (h : Situation.Leaves G.Keeps ⟨w, .body o args (.plan p), os⟩)
    {before after : List BuildStep} (hp : p.steps = before ++ after)
    (hbefore : Returns (fun c => BuildStep.runAll c o before (p.carriers args)) w cs w')
    (hw' : G.Inv w') (hcs : Regime.tidy.Carries w' cs) (ho : (Value.object o).Known w'.heap)
    (hsteps : ∀ step ∈ after, step.All (·.Known w'.heap))
    (hallows : G.Guards w' o → ∀ step ∈ after, G.Allows step)
    (hbase : G.Guards w' o → ∀ b ∈ p.base, w'.Above d b.target) :
    G.Retains w' (p.runFrom (Calls.nested depth) o after cs) := by
  have hcalls := Regime.tidy.nested_lawful depth
  have hsteps' : p.steps = before ++ (after ++ []) := by rw [hp, List.append_nil]
  have hfirst := steps_retain hc h before hsteps' hbefore hw' hcs ho hsteps hallows
  refine hfirst.bind fun cs' w₁ hrun => ?_
  obtain ⟨hw₁, ht₁, hcs'⟩ :=
    next hw' (Regime.keeps_steps hcalls (G.hosts hw').inv ho hcs hsteps) hrun
  have ho₁ : (Value.object o).Known w₁.heap := ho.mono ht₁.heap
  have hall : Returns (fun c => BuildStep.runAll c o p.steps (p.carriers args)) w cs' w₁ := by
    simp only [hp, BuildStep.runAll_append]
    exact hbefore.bind (.of_steps hrun)
  refine (infos_retain h hall [] (List.append_nil _).symm (.of_run fun _ => rfl)).bind
    fun _ w₂ hinfos => ?_
  obtain ⟨hw₂, ht₂, -⟩ := next hw₁ (Regime.keeps_infos hcalls p.infos (G.hosts hw₁).inv ho₁) hinfos
  -- the constructor of the abstract class is met once all fields are built and told
  have hinformed : Returns (fun c => p.infos.forM (InfoStep.run c o)) w₁ () w₂ := .of_infos hinfos
  cases hb : p.base with
  | none => exact .pure _
  | some b =>
    dsimp only
    rw [b.run_eq]
    refine (Retains.arguments b cs').bind fun values w₃ ha => ?_
    obtain ⟨hw₃, ht₃, hvalues⟩ := next hw₂ (keeps_arguments hw₂ b (hcs'.mono ht₂)) ha
    have htends : w'.Tends w₃ := Regime.tidy.trans (Regime.tidy.trans ht₁ ht₂) ht₃
    refine hc.chain hw₃ (ho.mono htends.heap) hvalues (fun hg => ?_)
      (h.starts (.base hb hall hinformed ha))
    have he := ((htends.leads (G.hosts hw').sound).evolves (G.hosts hw').ready).schema
    exact (hbase (G.former htends ho hg) b hb).mono he

/-- A plan that suits the object leaves to instances what they have. -/
theorem plan_retains (ho : (Value.object o).Known w.heap) (hargs : ∀ v ∈ args, v.Known w.heap)
    (hsteps : ∀ step ∈ p.steps, step.All (·.Known w.heap)) (hsuits : G.Suits w o (.plan p))
    (h : Situation.Leaves G.Keeps ⟨w, .body o args (.plan p), os⟩) :
    G.Retains w (p.run (Calls.nested depth) o args) :=
  runFrom_retains hc h p.steps.nil_append.symm (.of_run fun _ => rfl) hw
    (Regime.carries_argument hargs) ho hsteps (fun hg => (hsuits hg).1) fun hg => (hsuits hg).2

/-- So does the body of any constructor that suits the object. -/
theorem body_retains {b : ConstructorBody} (ho : (Value.object o).Known w.heap)
    (hargs : ∀ v ∈ args, v.Known w.heap) (hb : b.All (·.Known w.heap)) (hsuits : G.Suits w o b)
    (h : Situation.Leaves G.Keeps ⟨w, .body o args b, os⟩) :
    G.Retains w (b.run (Calls.nested depth) o args) := by
  cases b with
  | routine r => exact h.starts .routine _ .refl rfl depth
  | chain base =>
    cases base with
    | none => exact .pure _
    | some tk => exact hc.chain hw ho (fun _ h => nomatch h) hsuits (h.starts .next)
  | wrapped kind => exact h _ .refl rfl depth
  | plan p => exact plan_retains hc hw ho hargs hb hsuits h

/-- What the constructor does to a new object. -/
theorem new_retains (hargs : ∀ v ∈ args, v.Known w.heap)
    (hd : w.schema.constructorFor t k args.length = .ok decl) (hn : w.newObject t = some (o, w'))
    (h : Situation.Leaves G.Keeps ⟨w, .construct t k args, os⟩) :
    G.Retains w' (decl.body.run (Calls.nested depth) o args) := by
  obtain ⟨htends, ho⟩ := Regime.tidy.allocate (G.hosts hw).inv hn
  obtain ⟨-, -, -, -, hrest, -⟩ := World.newObject_spec hn
  have hw' := G.inv hw htends
  have hd' : w'.schema.constructorFor t k args.length = .ok decl := by
    rw [hrest]
    exact hd
  exact body_retains hc hw' ho (fun v hv => (hargs v hv).mono htends.heap)
    ((G.hosts hw').tidy.literals.constructorFor hd') (suits_of_own hw hn hd)
    (h.starts (.construct hd hn))

end

/-- **What creations leave to instances**: constructors leave to them what they have, to any depth of
nested calls. -/
theorem nested_retains (G : Custody c d) (depth : Nat) : G.CallsRetain depth := by
  induction depth with
  | zero => exact ⟨fun _ _ _ => .of_objects rfl, fun _ _ _ _ _ => .of_objects rfl⟩
  | succ depth ih =>
    refine ⟨fun {w t k args os} hw hargs h => ?_, fun {w t k o args os} hw ho hargs habove h => ?_⟩
    · show G.Retains w (Calls.constructStep (Calls.nested depth) t k args)
      rw [Calls.constructStep]
      refine Retains.bind (.of_objects rfl) fun a w₁ hget => ?_
      obtain ⟨rfl, rfl⟩ := pure_eq_ok_iff.mp hget
      split
      · exact .fail _
      · refine Retains.bind (.of_objects ?_) fun decl w₁ hd => ?_
        · rw [ofExcept_run]
          split <;> rfl
        · obtain ⟨hd, rfl⟩ :=
            check_eq_ok_iff (q := fun w => w.schema.constructorFor t k args.length).mp hd
          cases hn : w₁.newObject t with
          | none => exact .fail _
          | some ow =>
            obtain ⟨o, w₂⟩ := ow
            -- the constructor runs in the world that has the new object
            refine Retains.bind (x := MonadState.set w₂) (G.allocate hw hn) fun _ w₃ hset => ?_
            obtain ⟨-, rfl⟩ := end_inj.mp hset
            exact (new_retains ih hw hargs hd hn h).bind fun _ _ _ => .pure _
    · refine (Retains.check _).bind fun decl w₁ hd => ?_
      obtain ⟨hd, rfl⟩ := check_eq_ok_iff.mp hd
      exact body_retains ih hw ho hargs ((G.hosts hw).tidy.literals.constructorFor hd)
        (suits_of_above hw habove hd) (h.starts (.chain hd))

/-- What is created, and all that its constructor does to it, leaves to the others what they have. -/
theorem constructed_retains {depth k : Nat} {t : Ty} {args : List Value} {os : List ObjectId}
    {o : ObjectId} (hw : G.Inv w) (hargs : ∀ v ∈ args, v.Known w.heap)
    (h : Situation.Leaves G.Keeps ⟨w, .construct t k args, os⟩)
    (hrun : (Calls.nested depth).construct t k args w = (.ok o, w')) :
    ∃ w₁, w.newObject t = some (o, w₁) ∧ G.Keeps w₁ w' := by
  cases depth with
  | zero => cases hrun
  | succ depth =>
    obtain ⟨-, -, decl, w₁, hd, hn, hdecl⟩ := constructStep_eq_ok_iff.mp hrun
    have hretains := new_retains (G.nested_retains depth) hw hargs hd hn h
    rw [Retains, hdecl] at hretains
    exact ⟨w₁, hn, hretains⟩

section
variable {x : Descriptor} {given : Option CarrierId}

/-- What a creation hands to a constructor is there. -/
theorem known_creating {t : Ty} {k : Nat} {args : List Value} {h : Heap}
    (hgiven : ∀ k ∈ given, (Value.carrier k).Known h)
    (ha : x.creating given = some (.construct t k args)) : ∀ v ∈ args, v.Known h := by
  cases given with
  | none =>
    obtain ⟨_, -, he⟩ := Option.map_eq_some_iff.mp ha
    obtain ⟨-, -, rfl⟩ := Act.construct.inj he
    exact fun v hv => nomatch hv
  | some carrier =>
    obtain ⟨_, -, he⟩ := Option.map_eq_some_iff.mp ha
    obtain ⟨-, -, rfl⟩ := Act.construct.inj he
    exact known_given (hgiven carrier rfl)

/-- **Creations leave to instances what they have**, however they end. -/
theorem create_retains (hw : G.Inv w) (hgiven : ∀ k ∈ given, (Value.carrier k).Known w.heap)
    (hbodies : ∀ act ∈ x.creating given, Situation.Leaves G.Keeps ⟨w, act, []⟩) {depth : Nat}
    {r : Except Halt Creation} (h : Run.create depth x given w = (r, w')) :
    w.Tends w' ∧ G.Keeps w w' := by
  rcases x.creating_cases given with ⟨-, hcreate⟩ | ⟨k, args, hact, hcreate⟩
  · rw [hcreate] at h
    obtain ⟨rfl, rfl⟩ := end_inj.mp h
    exact ⟨Regime.tidy.refl w, G.refl w⟩
  · rw [hcreate] at h
    have hargs := known_creating hgiven hact
    have hretains := guarded_retains (G.nested_retains depth) hw hargs (hbodies _ hact)
    have htends :=
      (Regime.keeps_guarded (Regime.tidy.nested_lawful depth) x k (G.hosts hw).inv hargs).1
    rw [Retains, h] at hretains
    rw [h] at htends
    exact ⟨htends, hretains⟩

end

end Custody

end RecordForge
