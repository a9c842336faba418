import RecordForge.Proofs.Construction.Plans

/-!
# From world to world in a creation

The worlds that a creation goes through are scenes in which no registry is about to publish
anything, each a run from the one before (`World.Leads`). So what holds of all scenes that come about
from nothing holds of each of them (`World.Ready`). Beside that, the lemmas here say what the parts of
a step return: carriers that are taken, constructors that are run with parameters, and the field that
is stored.
-/

namespace RecordForge

open Run

variable {w w' w'' : World} {n c : ClassId} {os : List ObjectId} {o : ObjectId}

/-! ## Worlds that lead on -/

/-- A world comes about from another by requests and by what bodies do. -/
def World.Leads (w w' : World) : Prop := ∃ told, Scene.Runs w.quiet told w'.quiet

/-- A world in which constructors can be run: it is a sound scene in which each class was declared or
made by a registry, and the classes below a number have the receivers that they should have. -/
structure World.Ready (w : World) (n : ClassId) : Prop where
  sound : w.quiet.Sound
  sorted : w.quiet.Sorted
  hears : w.schema.Hears n
  bound : n ≤ w.schema.classes.size

namespace World

theorem Leads.refl (w : World) : w.Leads w := ⟨[], .refl _⟩

theorem Leads.trans (h : w.Leads w') (h' : w'.Leads w'') : w.Leads w'' := by
  obtain ⟨_, hruns⟩ := h
  obtain ⟨_, hruns'⟩ := h'
  exact ⟨_, hruns.trans hruns'⟩

theorem Works.leads (h : w.Works w') : w.Leads w' := ⟨[], h.runs⟩

theorem Leads.evolves (h : w.Leads w') (hw : w.Ready n) : w.Evolves w' := by
  obtain ⟨_, hruns⟩ := h
  exact (hruns.evolves hw.sound).world

theorem Ready.leads (hw : w.Ready n) (h : w.Leads w') : w'.Ready n := by
  have he := h.evolves hw
  obtain ⟨_, hruns⟩ := h
  exact ⟨hruns.sound hw.sound, hruns.sorted hw.sound hw.sorted,
    hw.hears.mono he.schema hw.sound.proper.closed hw.bound,
    Nat.le_trans hw.bound he.schema.size_le⟩

/-- What a run does leads on. -/
theorem Leads.of_keeps {α : Type} {x : Run α} {Q : World → α → Prop} {r : Except Halt α}
    (hx : Regime.quiet.Keeps w x Q) (hw : w.Ready n) (h : x w = (r, w')) : w.Leads w' := by
  have hleads := hx.1
  rw [h] at hleads
  exact hleads hw.sound

/-- What a run that returns does leads on. -/
theorem Leads.of_returns {α : Type} {x : Calls → Run α} {Q : World → α → Prop} {a : α}
    (hx : ∀ depth, Regime.quiet.Keeps w (x (Calls.nested depth)) Q) (hw : w.Ready n)
    (h : Returns x w a w') : w.Leads w' := by
  obtain ⟨N, h⟩ := h
  exact .of_keeps (hx N) hw (h N (Nat.le_refl N))

/-- Every act that ends leads on. -/
theorem Leads.of_ends {act : Act} (hw : w.Ready n) (h : Situation.Ends ⟨w, act, os⟩ w') :
    w.Leads w' := by
  refine .of_returns (x := fun c => act.run c) (Q := fun _ _ => True) (fun depth => ?_) hw h
  have hcalls := Regime.quiet.nested_lawful depth
  cases act with
  | construct t k args =>
    exact (hcalls.construct t k hw.sound fun _ _ => trivial).discard hw.sound
  | chain t k o args => exact hcalls.chain t k hw.sound (.inl trivial) fun _ _ => trivial
  | body o args b =>
    exact Regime.keeps_constructor hcalls hw.sound trivial (fun _ _ => trivial) b.all_true
  | build o step cs =>
    exact (Regime.keeps_step hcalls hw.sound trivial ⟨fun _ _ => trivial, fun _ _ => trivial⟩
      step.all_true).discard hw.sound
  | inform o i => exact Regime.keeps_info hcalls i hw.sound trivial
  | perform f r =>
    have hfits : Regime.quiet.Fits w f := ⟨fun _ _ => trivial, fun _ _ => trivial, fun _ _ => trivial⟩
    exact (Regime.keeps_routine hcalls hw.sound hfits r.all_true).discard hw.sound

theorem Leads.of_take {cs cs' : Carriers} {source : CarrierSource} {k : CarrierId} (hw : w.Ready n)
    (h : cs.take source w = (.ok (k, cs'), w')) : w.Leads w' :=
  .of_keeps (Regime.keeps_take source hw.sound ⟨fun _ _ => trivial, fun _ _ => trivial⟩) hw h

theorem Leads.of_arguments {b : BaseCall} {cs : Carriers} {values : List Value} (hw : w.Ready n)
    (h : b.arguments cs w = (.ok values, w')) : w.Leads w' := by
  refine .of_keeps (Q := fun _ _ => True) ?_ hw h
  rw [BaseCall.arguments]
  split
  · exact (Regime.keeps_take .argument hw.sound ⟨fun _ _ => trivial, fun _ _ => trivial⟩).bind
      hw.sound fun _ _ _ _ _ => .pure trivial
  · exact .pure trivial

theorem Leads.of_runAll {steps : List BuildStep} {cs cs' : Carriers} (hw : w.Ready n)
    (h : Returns (fun calls => BuildStep.runAll calls o steps cs) w cs' w') : w.Leads w' :=
  .of_returns (fun depth => Regime.keeps_steps (Regime.quiet.nested_lawful depth) hw.sound trivial
    ⟨fun _ _ => trivial, fun _ _ => trivial⟩ fun step _ => step.all_true) hw h

theorem Leads.of_infos {is : List InfoStep} (hw : w.Ready n)
    (h : Returns (fun calls => is.forM (InfoStep.run calls o)) w () w') : w.Leads w' :=
  .of_returns (fun depth => Regime.keeps_infos (Regime.quiet.nested_lawful depth) is hw.sound
    trivial) hw h

/-! ## Objects -/

/-- An object has at least so many fields. -/
def HasSlots (w : World) (o : ObjectId) (k : Nat) : Prop :=
  ∃ i, w.heap.object? o = some i ∧ k ≤ i.fields.length

theorem HasSlots.mono {k : Nat} (h : w.HasSlots o k) (hg : w.heap.Grows w'.heap) :
    w'.HasSlots o k := by
  obtain ⟨i, hi, hk⟩ := h
  obtain ⟨i', hi', hs⟩ := hg.objects hi
  have hlength : i'.fields.length = i.fields.length := congrArg Shape.size hs
  exact ⟨i', hi', hlength ▸ hk⟩

theorem HasSlots.le {k k' : Nat} (h : w.HasSlots o k) (hk : k' ≤ k) : w.HasSlots o k' := by
  obtain ⟨i, hi, hle⟩ := h
  exact ⟨i, hi, Nat.le_trans hk hle⟩

theorem Spares.refl (w : World) (os : List ObjectId) : w.Spares os w := fun _ _ => rfl

theorem Spares.trans (h : w.Spares os w') (h' : w'.Spares os w'') : w.Spares os w'' :=
  fun o ho => (h' o ho).trans (h o ho)

theorem Spares.of_cons (h : w.Spares (o :: os) w') : w.Spares os w' :=
  fun o' ho => h o' (List.mem_cons_of_mem _ ho)

/-- All objects are there. -/
def HasAll (w : World) (os : List ObjectId) : Prop := ∀ o ∈ os, o < w.heap.objects.size

theorem HasAll.mono (h : w.HasAll os) (hg : w.heap.Grows w'.heap) : w'.HasAll os :=
  fun o ho => Nat.lt_of_lt_of_le (h o ho) hg.size_le

theorem HasAll.cons {k : Nat} (h : w.HasAll os) (ho : w.HasSlots o k) : w.HasAll (o :: os) := by
  obtain ⟨i, hi, -⟩ := ho
  exact List.forall_mem_cons.mpr ⟨Heap.lt_of_object? hi, h⟩

theorem field_eq_ok_iff {k : Nat} {v : Value} : w.field o k = .ok v ↔ w.heap.field? o k = some v := by
  rw [field]
  cases w.heap.field? o k <;> simp

/-- Storing an object that is shared by reference into a slot that is there. The rest of the heap
stays. -/
theorem setField_reference {target : ObjectId} {k : Nat} (ho : w.HasSlots o (k + 1))
    (hv : w.heap.isByValue (.object target) = false) :
    ∃ w', w.setField o k (.object target) = .ok w' ∧ w'.field o k = .ok (.object target) ∧
      (∀ k', k' ≠ k → w'.heap.field? o k' = w.heap.field? o k') ∧
      ∀ o', o' ≠ o → w'.heap.object? o' = w.heap.object? o' := by
  obtain ⟨i, hi, hk⟩ := ho
  have hstore : w.heap.store o k (.object target) = some (w.heap.put o k (.object target)) := by
    refine Heap.store_eq_some_iff.mpr ⟨i, hi, hk, ?_⟩
    rw [Heap.assign_of_not_isByValue hv]
  have hobject : (w.heap.put o k (.object target)).object? o =
      some { i with fields := i.fields.set k (.object target) } := by
    rw [Heap.object?_put, if_pos rfl, hi]
    rfl
  refine ⟨{ w with heap := w.heap.put o k (.object target) }, by rw [setField, hstore], ?_,
    fun k' hne => ?_, fun o' hne => ?_⟩
  · exact field_eq_ok_iff.mpr (Heap.field?_eq_some_iff.mpr ⟨_, hobject, List.getElem?_set_self hk⟩)
  · simp only [Heap.field?, hobject, hi, Option.bind_some]
    exact List.getElem?_set_ne (Ne.symm hne)
  · exact (Heap.object?_put ..).trans (if_neg hne)

end World

/-! ## What steps return -/

/-- A carrier can always be taken. At the most that makes a carrier. -/
theorem Carriers.take_spec (cs : Carriers) (source : CarrierSource) (w : World) :
    ∃ k cs' carriers, cs.take source w =
      (.ok (k, cs'), { w with heap := { w.heap with carriers } }) := by
  cases source with
  | argument =>
    cases hk : cs.argument with
    | some k => exact ⟨k, _, w.heap.carriers, by rw [take, hk]; rfl⟩
    | none => exact ⟨w.heap.carriers.size, _, w.heap.carriers.push none, by rw [take, hk]; rfl⟩
  | transient =>
    cases hk : cs.transient with
    | some k => exact ⟨k, _, w.heap.carriers, by rw [take, hk]; rfl⟩
    | none => exact ⟨w.heap.carriers.size, _, w.heap.carriers.push none, by rw [take, hk]; rfl⟩

/-- The arguments for the constructor of the abstract class can always be had. -/
theorem BaseCall.arguments_spec (b : BaseCall) (cs : Carriers) (w : World) :
    ∃ values carriers, b.arguments cs w =
        (.ok values, { w with heap := { w.heap with carriers } }) ∧
      values.length = if b.passesCarrier then 1 else 0 := by
  rw [arguments]
  cases b.passesCarrier with
  | false => exact ⟨[], w.heap.carriers, rfl, rfl⟩
  | true =>
    obtain ⟨k, cs', carriers, h⟩ := cs.take_spec .argument w
    exact ⟨[.carrier k], carriers, bind_of_ok h, rfl⟩

/-- Steps, one part after the other. -/
theorem BuildStep.runAll_append (c : Calls) (o : ObjectId) (steps steps' : List BuildStep)
    (cs : Carriers) :
    runAll c o (steps ++ steps') cs = runAll c o steps cs >>= runAll c o steps' := by
  induction steps generalizing cs with
  | nil => simp [runAll]
  | cons s steps ih => simp [runAll, ih]

theorem BuildStep.runAll_concat (c : Calls) (o : ObjectId) (steps : List BuildStep)
    (step : BuildStep) (cs : Carriers) :
    runAll c o (steps ++ [step]) cs = runAll c o steps cs >>= step.run c o := by
  simp [runAll_append, runAll]

/-- A plan, one part of its steps after the other. -/
theorem ConstructionPlan.run_append {p : ConstructionPlan} {before after : List BuildStep}
    (hp : p.steps = before ++ after) (c : Calls) (o : ObjectId) (args : List Value) :
    p.run c o args = BuildStep.runAll c o before (p.carriers args) >>= p.runFrom c o after := by
  show p.runFrom c o p.steps (p.carriers args) = _
  rw [runFrom, hp, BuildStep.runAll_append, bind_assoc]
  rfl

theorem InfoStep.runAll_append (c : Calls) (o : ObjectId) (is js : List InfoStep) :
    (is ++ js).forM (run c o) = is.forM (run c o) >>= fun _ => js.forM (run c o) := by
  rw [show (is ++ js).forM (run c o) = forM (is ++ js) (run c o) from rfl, List.forM_append]
  rfl

theorem InfoStep.runAll_concat (c : Calls) (o : ObjectId) (is : List InfoStep) (i : InfoStep) :
    (is ++ [i]).forM (run c o) = is.forM (run c o) >>= fun _ => i.run c o := by
  rw [runAll_append]
  exact bind_congr fun _ => bind_pure_unit

namespace Regime

variable {G : Regime} {carrier : CarrierId} {parameters : Option (List Value)}

/-- A carrier that bodies may come across may hold what they may come across. -/
theorem leads_hold (hw : G.Inv w) (hk : G.Admits w (.carrier carrier))
    (hvs : ∀ vs ∈ parameters, ∀ v ∈ vs, G.Admits w v) : G.Leads w (w.hold carrier parameters) := by
  cases parameters with
  | none => exact G.refl w
  | some vs => exact G.setParameters hw hk fun us hus => Option.some.inj hus ▸ hvs vs rfl

/-- And it may be released. -/
theorem leads_release (hw : G.Inv w) (hk : G.Admits w (.carrier carrier)) :
    G.Leads w (w.release carrier parameters) := by
  cases parameters with
  | none => exact G.refl w
  | some vs => exact G.setParameters hw hk fun _ hus => nomatch hus

end Regime

namespace World

theorem Leads.hold (hw : w.Ready n) (carrier : CarrierId) (parameters : Option (List Value)) :
    w.Leads (w.hold carrier parameters) :=
  Regime.leads_hold (G := Regime.quiet) hw.sound trivial (fun _ _ _ _ => trivial) hw.sound

theorem Leads.release (hw : w.Ready n) (carrier : CarrierId) (parameters : Option (List Value)) :
    w.Leads (w.release carrier parameters) :=
  Regime.leads_release (G := Regime.quiet) hw.sound trivial hw.sound

end World

namespace Run.Returns

/-- What returns while its carrier holds parameters. -/
theorem withParameters {α : Type} {x : Calls → Run α} {a : α} {carrier : CarrierId}
    {parameters : Option (List Value)} (h : Returns x (w.hold carrier parameters) a w') :
    Returns (fun c => Run.withParameters carrier parameters (x c)) w a
      (w'.release carrier parameters) := by
  obtain ⟨N, h⟩ := h
  refine ⟨N, fun depth hdepth => ?_⟩
  dsimp only
  rw [withParameters_run, h depth hdepth]

/-- A creation through a descriptor, if the constructor returns. -/
theorem guarded {x : Descriptor} {k : Nat} {args : List Value}
    (h : Returns (fun c => c.construct x.product k args) w o w') :
    Returns (fun c => x.guarded c k args) w (.created o) w' := by
  obtain ⟨N, h⟩ := h
  refine ⟨N, fun depth hdepth => ?_⟩
  have hrun : (Calls.nested depth).construct x.product k args w = (.ok o, w') := h depth hdepth
  show x.guarded (Calls.nested depth) k args w = _
  rw [Descriptor.guarded, bind_of_ok outcome_run, hrun]
  rfl

theorem create {x : Descriptor} {k : Nat} (hk : x.defaultConstructor = some k)
    (h : Returns (fun c => c.construct x.product k []) w o w') :
    Returns (fun c => x.create c) w (.created o) w' := by
  simp only [Descriptor.create, hk]
  exact h.guarded

theorem createWith {x : Descriptor} {k : Nat} (hk : x.factoryConstructor = some k)
    {carrier : CarrierId}
    (h : Returns (fun c => c.construct x.product k (x.given carrier)) w o w') :
    Returns (fun c => x.createWith c carrier) w (.created o) w' := by
  simp only [Descriptor.createWith, hk]
  exact h.guarded

end Run.Returns

end RecordForge
