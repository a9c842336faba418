import RecordForge.Proofs.Construction.Carriers
import RecordForge.Proofs.Construction.Matching

/-!
# What constructors see of construction parameters

A constructor sees the construction parameters that its carrier holds while it runs. One carrier serves
a whole line of steps, one within the other: a step with parameters gives them to it, and takes away
whatever it holds at the end. So what a carrier holds has been given to it by a step that is still going
on (`Situation.Undisturbed.held_since`), but it need not be the innermost one; and what a step has given
to it may be gone before the constructor of an abstract class is run, when fields have been built in
between (`Situation.Installs.delivers`). The parameters that a property declares are those of the one
step for its field (`World.parameters_reach`).
-/

namespace RecordForge

open Run Traced

/-! ## Worlds in which carriers hold no more -/

/-- What a carrier holds, it held in an earlier world. -/
def World.Sheds (w w' : World) : Prop :=
  ∀ k vs, w'.heap.parameters? k = some vs → w.heap.parameters? k = some vs

namespace World

variable {w w' : World}

theorem Sheds.refl (w : World) : w.Sheds w := fun _ _ h => h

theorem Sheds.of_eq (h : w'.heap.parameters? = w.heap.parameters?) : w.Sheds w' :=
  fun k vs hk => by rwa [h] at hk

/-- A run that replaces no parameters. -/
theorem Accounts.sheds {notes : List Note} (h : w.Accounts notes w')
    (hr : ∀ k, .replaced k ∉ notes) : w.Sheds w' := by
  intro k vs hk
  by_cases hi : .installed k ∈ notes
  · rw [h.installed k (hr k) hi] at hk
    cases hk
  · rwa [h.untouched k (hr k) hi] at hk

/-- A carrier that is given parameters holds them. Others are as they were. -/
theorem parameters?_hold {j k : CarrierId} {parameters : Option (List Value)} {vs : List Value}
    (h : (w.hold j parameters).heap.parameters? k = some vs) :
    w.heap.parameters? k = some vs ∨ j = k ∧ parameters = some vs := by
  cases parameters with
  | none => exact .inl h
  | some us =>
    by_cases hj : j = k
    · subst hj
      simp only [hold, Heap.parameters?, Heap.setParameters, Array.getElem?_setIfInBounds,
        if_true] at h
      split at h
      · exact .inr ⟨rfl, h⟩
      · cases h
    · exact .inl ((Heap.parameters?_setParameters_of_ne hj).symm.trans h)

theorem parameters?_hold_self {k : CarrierId} {vs : List Value}
    (h : k < (w.hold k (some vs)).heap.carriers.size) :
    (w.hold k (some vs)).heap.parameters? k = some vs := by
  simp only [hold, Heap.setParameters, Array.size_setIfInBounds] at h
  simp [hold, Heap.parameters?, Heap.setParameters, h]

end World

theorem Run.Discreet.sheds {α : Type} {x : Run α} {r : Except Halt α} {w w' : World}
    (hx : x.Discreet) (h : x w = (r, w')) : w.Sheds w' := by
  have hp := (hx w).parameters
  rw [h] at hp
  exact .of_eq hp

/-! ## Steps that give parameters -/

/-- Whether an object is created by a constructor with operands. -/
def Source.isDirect : Source → Bool
  | direct .. => true
  | _ => false

/-- The step that builds a field. -/
def Act.step? : Act → Option BuildStep
  | build _ step _ => some step
  | _ => none

/-- The carrier that is the argument of a constructor. -/
def Act.argument? : Act → Option CarrierId
  | construct _ _ [.carrier k] | chain _ _ _ [.carrier k] | body _ [.carrier k] _ => some k
  | _ => none

/-- Whether a constructor is run, or the body of one. -/
def Act.isConstructor : Act → Bool
  | construct .. | chain .. | body .. => true
  | _ => false

theorem Act.step?_of_isConstructor {act : Act} (h : act.isConstructor = true) : act.step? = none := by
  cases act <;> first | rfl | cases h

namespace Situation

variable {m m' m'' : Situation} {k : CarrierId} {vs : List Value}

/-- A constructor is about to run; its argument is a carrier, which holds something. -/
def Receives (m : Situation) (k : CarrierId) (held : Option (List Value)) : Prop :=
  m.act.argument? = some k ∧ m.world.heap.parameters? k = held

instance (m : Situation) (k : CarrierId) (held : Option (List Value)) :
    Decidable (m.Receives k held) := inferInstanceAs (Decidable (_ ∧ _))

/-- An act starts another one after it has given parameters to a carrier. -/
structure Installs (m : Situation) (k : CarrierId) (vs : List Value) (m' : Situation) : Prop where
  starts : m.Starts m'
  parameters : ∃ step ∈ m.act.step?, step.parameters = some vs
  held : ∃ w : World, m'.world = w.hold k (some vs)

section
variable {w w₁ w₂ : World} {o : ObjectId} {os : List ObjectId} {cs : Carriers} {args : List Value}
variable {p : ConstructionPlan}

/-- Fields that are built one after the other let carriers hold no more than before. -/
theorem Undisturbed.builds_shed (h : Undisturbed ⟨w, .body o args (.plan p), os⟩)
    {before after : List BuildStep} (hp : p.steps = before ++ after)
    (hrun : Returns (fun c => BuildStep.runAll c o before (p.carriers args)) w cs w₁) :
    w.Sheds w₁ := by
  obtain ⟨N, hrun⟩ := hrun
  have hrun := hrun N (Nat.le_refl N)
  dsimp only at hrun
  rw [← TracedCalls.nested_run, ← BuildStep.tracedAll_run] at hrun
  have haccounts := BuildStep.accountedAll (o := o) (TracedCalls.nested_accounted N) before
    (p.carriers args) w
  rw [hrun] at haccounts
  exact haccounts.sheds (steps_honor (calls_honor N) h [] hp (.of_run fun _ => rfl))

theorem Undisturbed.informs_shed (h : Undisturbed ⟨w, .body o args (.plan p), os⟩)
    (hsteps : Returns (fun c => BuildStep.runAll c o p.steps (p.carriers args)) w cs w₁)
    {before after : List InfoStep} (hp : p.infos = before ++ after)
    (hrun : Returns (fun c => before.forM (InfoStep.run c o)) w₁ () w₂) : w₁.Sheds w₂ := by
  obtain ⟨N, hrun⟩ := hrun
  have hrun := hrun N (Nat.le_refl N)
  dsimp only at hrun
  rw [← TracedCalls.nested_run, ← InfoStep.tracedAll_run] at hrun
  have haccounts := InfoStep.accountedAll (o := o) (TracedCalls.nested_accounted N) before w₁
  rw [hrun] at haccounts
  exact haccounts.sheds (infos_honor h hsteps [] hp (.of_run fun _ => rfl))

end

/-- A step starts the construction of an object. -/
theorem Starts.construct_of_step {step : BuildStep} (hs : m.Starts m') (hstep : step ∈ m.act.step?)
    (hk : m'.act.argument? = some k) : ∃ t j, m'.act = .construct t j [.carrier k] := by
  have hargument : ∀ {t j args}, (Act.construct t j args).argument? = some k →
      Act.construct t j args = .construct t j [.carrier k] := fun {t j args} h => by
    simp only [Act.argument?] at h
    split at h <;> simp_all
  cases hs with
  | direct => exact ⟨_, _, hargument hk⟩
  | withCarrier => exact ⟨_, _, hargument hk⟩
  | lookup => exact ⟨_, _, hargument hk⟩
  | construct => cases hstep
  | chain => cases hstep
  | routine => cases hstep
  | next => cases hstep
  | build => cases hstep
  | inform => cases hstep
  | base => cases hstep
  | inform_receiver => cases hstep

/-- A step is taken when a plan is run. -/
theorem Starts.plan_of_step {step : BuildStep} (hs : m.Starts m') (hstep : step ∈ m'.act.step?) :
    ∃ w o args p os, m = ⟨w, .body o args (.plan p), os⟩ ∧ step ∈ p.steps := by
  cases hs with
  | build hp =>
    obtain rfl := Option.some.inj hstep
    exact ⟨_, _, _, _, _, rfl, hp ▸ List.mem_append_right _ List.mem_cons_self⟩
  | construct => cases hstep
  | chain => cases hstep
  | routine => cases hstep
  | next => cases hstep
  | inform => cases hstep
  | base => cases hstep
  | direct => cases hstep
  | withCarrier => cases hstep
  | lookup => cases hstep
  | inform_receiver => cases hstep

/-- A step with parameters that starts the construction of an object with a carrier has given them to
that carrier, unless the carrier was an argument of its own. -/
theorem Starts.installs {step : BuildStep} (hs : m.Starts m') (hstep : step ∈ m.act.step?)
    (hps : step.parameters = some vs) (hcarrier : step.source.isDirect = false)
    (hk : m'.act.argument? = some k) : m.Installs k vs m' := by
  have hstarts := hs
  cases hs with
  | direct hs =>
    obtain rfl := Option.some.inj hstep
    rw [hs] at hcarrier
    cases hcarrier
  | @withCarrier w w' o _ cs cs' os t j source carrier hs ht =>
    obtain rfl := Option.some.inj hstep
    obtain rfl := Option.some.inj hk
    exact ⟨hstarts, ⟨_, rfl, hps⟩, w', by rw [hps]⟩
  | @lookup w w' w'' o _ cs cs' os l source carrier x j hs hr ht hf =>
    obtain rfl := Option.some.inj hstep
    rw [Descriptor.given] at hk
    split at hk
    · obtain rfl := Option.some.inj hk
      exact ⟨hstarts, ⟨_, rfl, hps⟩, w'', by rw [hps]⟩
    · cases hk
  | construct => cases hstep
  | chain => cases hstep
  | routine => cases hstep
  | next => cases hstep
  | build => cases hstep
  | inform => cases hstep
  | base => cases hstep
  | inform_receiver => cases hstep

/-- **When an act starts another, a carrier holds what it held before**, or it has just been given the
parameters of the act. -/
theorem Undisturbed.held_before (h : m.Undisturbed) (hs : m.Starts m')
    (hk : m'.world.heap.parameters? k = some vs) :
    m.world.heap.parameters? k = some vs ∨ m.Installs k vs m' := by
  have hstarts := hs
  cases hs with
  | construct hd hn =>
    obtain ⟨_, _, -, -, hw', -, hadds, -⟩ := World.newObject_spec hn
    rw [hw'] at hk
    exact .inl ((World.Discreet.of_heap hadds.carriers).parameters ▸ hk)
  | chain hd => exact .inl hk
  | routine => exact .inl hk
  | next => exact .inl hk
  | build hp hrun => exact .inl (h.builds_shed hp hrun k vs hk)
  | inform hp hrun hi =>
    exact .inl (h.builds_shed (List.append_nil _).symm hrun k vs (h.informs_shed hrun hp hi k vs hk))
  | base hp hrun hi ha =>
    refine .inl (h.builds_shed (List.append_nil _).symm hrun k vs
      (h.informs_shed hrun (List.append_nil _).symm hi k vs ?_))
    exact (Discreet.arguments _ _).sheds ha k vs hk
  | direct hs hl => exact .inl ((Discreet.loadAll _ _).sheds hl k vs hk)
  | @withCarrier w w' o step cs cs' os t j source carrier hs ht =>
    rcases World.parameters?_hold hk with hk | ⟨rfl, hps⟩
    · exact .inl ((Discreet.take _ _).sheds ht k vs hk)
    · exact .inr ⟨hstarts, ⟨step, rfl, hps⟩, w', by rw [hps]⟩
  | @lookup w w' w'' o step cs cs' os l source carrier x j hs hr ht hf =>
    rcases World.parameters?_hold hk with hk | ⟨rfl, hps⟩
    · exact .inl ((Discreet.resolve _).sheds (resolve_eq_ok_iff.mpr hr) k vs
        ((Discreet.take _ _).sheds ht k vs hk))
    · exact .inr ⟨hstarts, ⟨step, rfl, hps⟩, w'', by rw [hps]⟩
  | inform_receiver hf hr => exact .inl hk

/-- **What a carrier holds has been given to it by a step that is still going on**, unless it held it
from the beginning. -/
theorem Undisturbed.held_since (h : m.Undisturbed) (hm : m.Meets m')
    (hk : m'.world.heap.parameters? k = some vs) :
    m.world.heap.parameters? k = some vs ∨
      ∃ m₁ m₂, m.Meets m₁ ∧ m₁.Installs k vs m₂ ∧ m₂.Meets m' := by
  induction hm with
  | refl => exact .inl hk
  | @tail m₁ m₂ hm hs ih =>
    rcases (h.meets hm).held_before hs hk with hk | hi
    · exact (ih hk).imp_right fun ⟨m₃, m₄, h₃, hi, h₄⟩ => ⟨m₃, m₄, h₃, hi, h₄.tail hs⟩
    · exact .inr ⟨m₁, m₂, hm, hi, .refl⟩

/-! ## Constructors of one object -/

/-- The constructors that are run on an object that a step creates: that of its class, and then those
of its bases. -/
inductive Initializes (m : Situation) : Situation → Prop
  | refl : Initializes m m
  | tail {m' m'' : Situation} (h : Initializes m m') (hs : m'.Starts m'')
      (hc : m''.act.isConstructor = true) : Initializes m m''

theorem Initializes.head (hs : m.Starts m') (hc : m'.act.isConstructor = true)
    (h : m'.Initializes m'') : m.Initializes m'' := by
  induction h with
  | refl => exact .tail .refl hs hc
  | tail _ hs' hc' ih => exact ih.tail hs' hc'

theorem initializes_of_walk {n : Nat} {is : List Nat}
    (h : walk (Calls.nested n) (fun m => m.act.isConstructor) is m = some m') :
    m.Initializes m' := by
  induction is generalizing m with
  | nil =>
    obtain rfl := Option.some.inj h
    exact .refl
  | cons i is ih =>
    obtain ⟨m₁, hm₁, hc, h⟩ := exists_of_walk_cons h
    exact .head (starts_of_mem_next hm₁) hc (ih h)

/-- Constructors let carriers hold no more than before, if the step that creates the object gives
them no parameters. -/
theorem Initializes.sheds {step : BuildStep} (hi : m.Initializes m') (h : m.Undisturbed)
    (hm : step ∈ m.act.step?) (hnone : step.parameters = none) :
    m.world.Sheds m'.world ∧ m.Meets m' := by
  induction hi with
  | refl => exact ⟨.refl _, .refl⟩
  | @tail m₁ m₂ hi hs hc ih =>
    obtain ⟨hsheds, hmeets⟩ := ih
    refine ⟨fun k vs hk => ?_, hmeets.tail hs⟩
    rcases (h.meets hmeets).held_before hs hk with hk | hinstalls
    · exact hsheds k vs hk
    · -- only steps give parameters: this one does not, and no constructor is a step
      obtain ⟨step', hstep', hsome⟩ := hinstalls.parameters
      cases hi with
      | refl =>
        obtain rfl := Option.some.inj (hm.symm.trans hstep')
        rw [hnone] at hsome
        cases hsome
      | tail _ _ hc =>
        rw [Act.step?_of_isConstructor hc] at hstep'
        exact absurd hstep' (Option.not_mem_none step')

end Situation

/-- **A member without parameters sees none but those of a step around it.** While the constructors of
the object are run that is created for it, what a carrier holds has been given to it by a step that was
going on already when the field was about to be built, or the carrier held it before the creation. -/
theorem World.parameters_of_others (w : World) (x : Descriptor) (given : Option CarrierId)
    (hgiven : ∀ k ∈ given, w.heap.parameters? k = none)
    (hundisturbed : ∀ act ∈ x.creating given, Situation.Undisturbed ⟨w, act, []⟩) :
    ∀ act ∈ x.creating given, ∀ m, Situation.Meets ⟨w, act, []⟩ m →
      ∀ step ∈ m.act.step?, step.parameters = none →
        ∀ m', m.Initializes m' → ∀ k vs, m'.world.heap.parameters? k = some vs →
          (∃ m₁ m₂, Situation.Meets ⟨w, act, []⟩ m₁ ∧ m₁.Installs k vs m₂ ∧ m₂.Meets m) ∨
            given ≠ some k ∧ w.heap.parameters? k = some vs := by
  intro act hact m hm step hstep hnone m' hi k vs hk
  have hundisturbed := hundisturbed act hact
  have hk := (hi.sheds (hundisturbed.meets hm) hstep hnone).1 k vs hk
  rcases hundisturbed.held_since hm hk with hk | hinstalled
  · refine .inr ⟨fun he => ?_, hk⟩
    rw [hgiven k he] at hk
    cases hk
  · exact .inl hinstalled

/-! ## From a step to the constructor of an abstract class -/

/-- The carriers of a construction still have the argument when one has been taken. -/
theorem Carriers.take_argument {cs cs' : Carriers} {source : CarrierSource} {j k : CarrierId}
    {w w' : World} (h : cs.argument = some k) (ht : cs.take source w = (.ok (j, cs'), w')) :
    cs'.argument = some k := by
  cases source with
  | argument =>
    rw [take, h] at ht
    obtain ⟨hr, -⟩ := pure_eq_ok_iff.mp ht
    exact (congrArg (fun r => r.2.argument) hr).symm
  | transient =>
    rw [take] at ht
    cases hj : cs.transient with
    | some j' =>
      rw [hj] at ht
      obtain ⟨hr, -⟩ := pure_eq_ok_iff.mp ht
      obtain ⟨-, rfl⟩ := Prod.mk.inj hr
      exact h
    | none =>
      rw [hj] at ht
      obtain ⟨j', w₁, -, ht⟩ := bind_eq_ok_iff.mp ht
      obtain ⟨hr, -⟩ := pure_eq_ok_iff.mp ht
      obtain ⟨-, rfl⟩ := Prod.mk.inj hr
      exact h

theorem BuildStep.run_argument {c : Calls} {o : ObjectId} {step : BuildStep} {cs cs' : Carriers}
    {k : CarrierId} {w w' : World} (h : cs.argument = some k)
    (hrun : step.run c o cs w = (.ok cs', w')) : cs'.argument = some k := by
  obtain ⟨v, w₁, hbuild, -⟩ := step_eq_ok_iff.mp hrun
  rw [build] at hbuild
  cases hs : step.source with
  | direct t j operands =>
    rw [hs] at hbuild
    obtain ⟨values, w₃, -, hbuild⟩ := bind_eq_ok_iff.mp hbuild
    obtain ⟨target, w₄, -, hbuild⟩ := bind_eq_ok_iff.mp hbuild
    obtain ⟨hr, -⟩ := pure_eq_ok_iff.mp hbuild
    obtain ⟨-, rfl⟩ := Prod.mk.inj hr
    exact h
  | withCarrier t j source =>
    rw [hs] at hbuild
    obtain ⟨r, w₃, ht, hbuild⟩ := bind_eq_ok_iff.mp hbuild
    obtain ⟨target, w₄, -, hbuild⟩ := bind_eq_ok_iff.mp hbuild
    obtain ⟨hr, -⟩ := pure_eq_ok_iff.mp hbuild
    obtain ⟨-, rfl⟩ := Prod.mk.inj hr
    exact Carriers.take_argument h ht
  | lookup l source =>
    rw [hs] at hbuild
    obtain ⟨x, w₃, -, hbuild⟩ := bind_eq_ok_iff.mp hbuild
    obtain ⟨r, w₄, ht, hbuild⟩ := bind_eq_ok_iff.mp hbuild
    obtain ⟨creation, w₅, -, hbuild⟩ := bind_eq_ok_iff.mp hbuild
    obtain ⟨v', w₆, -, hbuild⟩ := bind_eq_ok_iff.mp hbuild
    obtain ⟨hr, -⟩ := pure_eq_ok_iff.mp hbuild
    obtain ⟨-, rfl⟩ := Prod.mk.inj hr
    exact Carriers.take_argument h ht

theorem BuildStep.runAll_argument {c : Calls} {o : ObjectId} {steps : List BuildStep}
    {cs cs' : Carriers} {k : CarrierId} {w w' : World} (h : cs.argument = some k)
    (hrun : runAll c o steps cs w = (.ok cs', w')) : cs'.argument = some k := by
  induction steps generalizing cs w with
  | nil =>
    obtain ⟨rfl, -⟩ := pure_eq_ok_iff.mp hrun
    exact h
  | cons step steps ih =>
    obtain ⟨cs₁, w₁, hstep, hrest⟩ := bind_eq_ok_iff.mp hrun
    exact ih (step.run_argument h hstep) hrest

/-- What a plan does until all fields are built, and their values have been told their properties. -/
def ConstructionPlan.tracedFields (c : TracedCalls) (o : ObjectId) (args : List Value)
    (p : ConstructionPlan) : Traced Carriers := do
  let cs ← BuildStep.tracedAll c o p.steps (p.carriers args)
  InfoStep.tracedAll c o p.infos
  return cs

section
variable {w w₁ w₂ : World} {o : ObjectId} {args : List Value} {cs : Carriers}
variable {p : ConstructionPlan} {os : List ObjectId}

theorem ConstructionPlan.tracedFields_run {depth : Nat}
    (hsteps : BuildStep.runAll (Calls.nested depth) o p.steps (p.carriers args) w = (.ok cs, w₁))
    (hinfos : p.infos.forM (InfoStep.run (Calls.nested depth) o) w₁ = (.ok (), w₂)) :
    (p.tracedFields (TracedCalls.nested depth) o args).run w = (.ok cs, w₂) := by
  rw [← TracedCalls.nested_run, ← BuildStep.tracedAll_run] at hsteps
  rw [← TracedCalls.nested_run, ← InfoStep.tracedAll_run] at hinfos
  rw [tracedFields, run_bind, bind_of_ok hsteps, run_bind, bind_of_ok hinfos]
  rfl

theorem ConstructionPlan.tracedFields_accounted (p : ConstructionPlan) (o : ObjectId)
    (args : List Value) (depth : Nat) :
    (p.tracedFields (TracedCalls.nested depth) o args).Accounted :=
  (BuildStep.accountedAll (TracedCalls.nested_accounted depth) p.steps _).bind fun _ =>
    (InfoStep.accountedAll (TracedCalls.nested_accounted depth) p.infos).bind fun _ => .pure _

theorem Situation.Undisturbed.fields_honor (h : Undisturbed ⟨w, .body o args (.plan p), os⟩)
    (depth : Nat) :
    (p.tracedFields (TracedCalls.nested depth) o args).Honors w := by
  refine (steps_honor (calls_honor depth) h [] (List.append_nil _).symm
    (.of_run fun _ => rfl)).bind fun cs w₁ hsteps => ?_
  rw [BuildStep.tracedAll_run, TracedCalls.nested_run] at hsteps
  have hsteps : Returns (fun c => BuildStep.runAll c o p.steps (p.carriers args)) w cs w₁ := .of_steps hsteps
  exact (infos_honor h hsteps [] (List.append_nil _).symm (.of_run fun _ => rfl)).bind
    fun _ _ _ => .pure _

end

namespace Situation

variable {m m' m'' b : Situation} {k : CarrierId} {vs : List Value}

/-- An object is about to be created with parameters in a carrier. They reach the constructor of its
class, and the one of the abstract class too, if that class has been implemented, unless the carrier is
given the parameters of a step while the fields are built: then it holds none when that constructor is
run. -/
structure Delivers (m : Situation) (k : CarrierId) (vs : List Value) : Prop where
  created : ∀ m₁, m.Starts m₁ → m₁.Receives k (some vs)
  implemented : ∀ w o p os, m.Starts ⟨w, .body o [.carrier k] (.plan p), os⟩ → p.takesCarrier = true →
    (∀ c ∈ p.base, c.passesCarrier = true) → ∀ w' a i values,
      Starts ⟨w, .body o [.carrier k] (.plan p), os⟩ ⟨w', .chain a i o values, os⟩ →
        ∀ m₂, Starts ⟨w', .chain a i o values, os⟩ m₂ → ∃ N, ∀ depth, N ≤ depth →
          let notes := (p.tracedFields (TracedCalls.nested depth) o [.carrier k]).notes w
          (.installed k ∉ notes → m₂.Receives k (some vs)) ∧
            (.installed k ∈ notes → m₂.Receives k none)

/-- **Parameters reach the constructor of the class that a step creates an object of.** -/
theorem Installs.delivers (hi : b.Installs k vs m) (h : b.Undisturbed)
    (hk : k < m.world.heap.carriers.size) (hm : m.act.argument? = some k) : m.Delivers k vs := by
  have hheld : m.world.heap.parameters? k = some vs := by
    obtain ⟨w, hw⟩ := hi.held
    rw [hw] at hk ⊢
    exact World.parameters?_hold_self hk
  have hm₁ := h.starts hi.starts
  obtain ⟨step, hstep, -⟩ := hi.parameters
  obtain ⟨t, j, hm⟩ := hi.starts.construct_of_step hstep hm
  obtain ⟨w₀, act, os₀⟩ := m
  obtain rfl : act = .construct t j [.carrier k] := hm
  have hfirst : ∀ m₁, Starts ⟨w₀, .construct t j [.carrier k], os₀⟩ m₁ → m₁.Receives k (some vs) := by
    intro m₁ hs
    cases hs with
    | construct hd hn =>
      obtain ⟨_, _, -, -, hw', -, hadds, -⟩ := World.newObject_spec hn
      refine ⟨rfl, ?_⟩
      rw [hw', (World.Discreet.of_heap hadds.carriers).parameters]
      exact hheld
  refine ⟨hfirst, fun w o p os hs htakes hpasses w' a i values hbase m₂ hchain => ?_⟩
  have hw : w.heap.parameters? k = some vs := (hfirst _ hs).2
  have hm₂ := hm₁.starts hs
  cases hbase with
  | @base _ w₁ w₂ _ _ _ _ _ _ c cs hp hsteps hinfos ha =>
    obtain ⟨N₁, hsteps⟩ := hsteps
    obtain ⟨N₂, hinfos⟩ := hinfos
    have hargument : cs.argument = some k := by
      refine BuildStep.runAll_argument ?_ (hsteps N₁ (Nat.le_refl N₁))
      simp [ConstructionPlan.carriers, htakes, Value.carrier?]
    obtain ⟨rfl, rfl⟩ : values = [.carrier k] ∧ w' = w₂ := by
      rw [BaseCall.arguments, if_pos (hpasses c hp), Carriers.take, hargument] at ha
      obtain ⟨hr, rfl⟩ := pure_eq_ok_iff.mp ha
      exact ⟨hr.symm, rfl⟩
    cases hchain with
    | chain hd =>
      refine ⟨max N₁ N₂, fun depth hdepth => ?_⟩
      have hrun := p.tracedFields_run (hsteps depth (Nat.le_trans (Nat.le_max_left _ _) hdepth))
        (hinfos depth (Nat.le_trans (Nat.le_max_right _ _) hdepth))
      have haccounts := p.tracedFields_accounted o [.carrier k] depth w
      rw [hrun] at haccounts
      have hhonors := hm₂.fields_honor depth k
      refine ⟨fun hi => ⟨rfl, ?_⟩, fun hi => ⟨rfl, haccounts.installed k hhonors hi⟩⟩
      exact (haccounts.untouched k hhonors hi).trans hw

end Situation

/-- A step that feeds constructors gives no carrier as an operand, if no constructor matches its
parameters. -/
theorem BuildStep.Feeds.isDirect_eq_false {w b : World} {step : BuildStep} {vs : List Value}
    {o : ObjectId} {cs : Carriers} {os : List ObjectId} {m : Situation} {k : CarrierId}
    (hs : step.Feeds w.heap w.schema) (hvs : step.parameters = some vs)
    (hF : w.schema.isAbstract step.fieldType = true ∨
      w.schema.findConstructor? step.fieldType (vs.map (Schema.typeOf w.heap)) = none)
    (hm : Situation.Starts ⟨b, .build o step cs, os⟩ m) (hk : m.act.argument? = some k) :
    step.source.isDirect = false := by
  cases hm with
  | direct hsource hload =>
    rcases hs.operands hsource with rfl | ⟨ha, us, hus, hmatching⟩
    · -- without operands there is no argument
      obtain ⟨he, -⟩ := pure_eq_ok_iff.mp hload
      subst he
      cases hk
    · obtain rfl := Option.some.inj (hvs.symm.trans hus)
      rcases hF with hF | hF
      · cases ha.symm.trans hF
      · rw [FieldPlan.matching?, hF] at hmatching
        cases hmatching
  | withCarrier hsource => rw [hsource]; rfl
  | lookup hsource => rw [hsource]; rfl

/-- **The parameters of a property reach the constructors of its field.** In a world that has come about
from nothing, an abstract class has a descriptor. One of its abstract properties has construction
parameters, and its field is of a mapped class that is shared by reference; that is abstract, or none of
its constructors takes values of exactly the types of the parameters. Then both constructors of the
implementation have one step for the field, with the parameters. However deep in a creation it is run,
if the step creates an object with a carrier and no body of a user replaces parameters in the course of
that, then it has given the parameters to the carrier, and they reach the constructors of the object. -/
theorem World.parameters_reach {w : World} (harises : w.Arises) {reg : RegistryId}
    {registry : Registry} (hr : w.registries[reg]? = some registry) {t : Ty} {e : DescriptorId}
    {x : Descriptor} (hc : registry.cached? t = some e) (hx : w.descriptors[e]? = some x)
    (ht : w.schema.isAbstract t = true) {q : PropertyDecl} (hq : q ∈ w.schema.abstractProperties t)
    {vs : List Value} (hvs : registry.provider.parameters t q = some vs) {F : Ty}
    {member : Option ValueMember} (hm : registry.provider.Chooses w.schema t q F member)
    (ho : registry.provider.owns w.schema F = true)
    (hF : w.schema.isAbstract F = true ∨
      w.schema.findConstructor? F (vs.map (Schema.typeOf w.heap)) = none) :
    ∃ d j, w.schema.decl? x.product = some d ∧ d.OwnsField w.schema registry.provider t q F j ∧
      ∀ ctor ∈ d.constructors, ∃ p step, ctor.body = .plan p ∧ p.Builds j step ∧
        step.parameters = some vs ∧ ∀ b o cs os m k,
          Situation.Starts ⟨b, .build o step cs, os⟩ m → m.act.argument? = some k →
            Situation.Undisturbed ⟨b, .build o step cs, os⟩ → k < m.world.heap.carriers.size →
              Situation.Installs ⟨b, .build o step cs, os⟩ k vs m ∧ m.Delivers k vs := by
  obtain ⟨base, i, h₀, report, n, hproduct, hi, -, hw⟩ := harises.exists_implementation hr hc hx ht
  obtain ⟨told, hruns⟩ := harises.comes_about.1
  have hfeeds : (i.decl w.schema).Feeds w.heap w.schema :=
    Scene.feeds_of_runs hruns n _ hw.cls w.heap (.refl _)
  have hd : w.schema.decl? x.product = some (i.decl w.schema) := by
    rw [hproduct]
    exact hw.cls
  obtain ⟨f, hf, plan, hfp, rfl, rfl⟩ := hi.exists_planned hq hm ho
  refine ⟨i.decl w.schema, f.field.slot, hd, hi.ownsField hf hfp, fun ctor hctor => ?_⟩
  obtain ⟨p, step, hp, hbuilds, htype, hgiven⟩ := hi.exists_builds hf hfp hctor
  have hparameters : step.parameters = some vs := (hgiven.trans (hi.parameters_eq hf)).trans hvs
  have hstep := hfeeds ctor hctor p hp step hbuilds.mem
  rw [← htype] at hF
  refine ⟨p, step, hp, hbuilds, hparameters, fun b o cs os m k hs hk hundisturbed hsize => ?_⟩
  have hinstalls := hs.installs rfl hparameters (hstep.isDirect_eq_false hparameters hF hs hk) hk
  exact ⟨hinstalls, hinstalls.delivers hundisturbed hsize hk⟩

/-! ### A scene -/

namespace Scene

open Situation

/-- Drafts of a class whose constructor takes a carrier, of an abstract one with two properties of its
type, the second of which has parameters, and of one with a property of that type, which has
parameters too. -/
def kilnDrafts : List ClassDraft :=
  let constructor : MemberDraft :=
    .constructor { params := [.carrier], isPublic := true, body := .routine [] }
  [{ name := "Kiln.Glaze", members := [constructor, .defaultConstructor] },
   { name := "Kiln.Pot", isAbstract := true
     members := [.property { World.forestProperty (.cls 0) with name := "Lid" },
       .property { World.forestProperty (.cls 0) with
         name := "Body", attributes := [.parameters [.ofBool false]] }, constructor] },
   { name := "Kiln.Tray", isAbstract := true
     members := [.property { World.forestProperty (.cls 1) with
       attributes := [.parameters [.ofBool true]] }, .defaultConstructor] }]

/-- The world in which `Kiln.Tray` has been implemented, and `Kiln.Pot` with it. -/
def kiln : World := asked kilnDrafts (.cls 2)

theorem kiln_undisturbed : (kiln.descriptors[1]?).all (fun x => (x.creating none).all fun act =>
    survey (Calls.nested 12) isPlain 16 ⟨kiln, act, []⟩) = true := by
  decide +kernel

/-- When the lid is about to be built, for a step without parameters, the constructor that is run sees
those of the step that builds the pot. -/
theorem kiln_lid : (kiln.descriptors[1]?).any (fun x => (x.creating none).any fun act =>
    (walk (Calls.nested 12) (fun _ => true) [0, 0, 0, 0, 0] ⟨kiln, act, []⟩).any fun m =>
      m.act.step?.any (fun step => step.parameters.isNone) &&
        (walk (Calls.nested 12) (fun m => m.act.isConstructor) [0, 0] m).any fun m' =>
          decide (m'.Receives 0 (some [.ofBool true]))) = true := by
  decide +kernel

theorem exists_kiln_lid : ∃ x act m m' step, kiln.descriptors[1]? = some x ∧
    act ∈ x.creating none ∧ Meets ⟨kiln, act, []⟩ m ∧ step ∈ m.act.step? ∧ step.parameters = none ∧
      m.Initializes m' ∧ m'.Receives 0 (some [.ofBool true]) := by
  have h := kiln_lid
  simp only [Option.any_eq_true, Bool.and_eq_true, Option.isNone_iff_eq_none,
    decide_eq_true_eq] at h
  obtain ⟨x, hx, act, hact, m, hm, ⟨step, hstep, hnone⟩, m', hm', hreceives⟩ := h
  exact ⟨x, act, m, m', step, hx, hact, meets_of_walk hm, hstep, hnone, initializes_of_walk hm',
    hreceives⟩

/-- What the constructor sees is from the step that builds the pot. -/
theorem parameters_of_others_kiln : ∃ act m m₁ m₂, Meets ⟨kiln, act, []⟩ m ∧
    (∃ step ∈ m.act.step?, step.parameters = none) ∧ Meets ⟨kiln, act, []⟩ m₁ ∧
      m₁.Installs 0 [.ofBool true] m₂ ∧ m₂.Meets m := by
  obtain ⟨x, act, m, m', step, hx, hact, hm, hstep, hnone, hi, hreceives⟩ := exists_kiln_lid
  have hundisturbed : ∀ act ∈ x.creating none, Undisturbed ⟨kiln, act, []⟩ := fun act hact =>
    undisturbed_of_survey (World.all_creating kiln_undisturbed hx act hact)
  have hseen := World.parameters_of_others kiln x none (fun k hk => (nomatch hk)) hundisturbed act
    hact m hm step hstep hnone m' hi 0 _ hreceives.2
  have hfresh : kiln.heap.parameters? 0 = none := by decide +kernel
  rcases hseen with ⟨m₁, m₂, hm₁, hinstalls, hm₂⟩ | ⟨-, hheld⟩
  · exact ⟨act, m, m₁, m₂, hm, ⟨step, hstep, hnone⟩, hm₁, hinstalls, hm₂⟩
  · rw [hfresh] at hheld
    cases hheld

/-- So it is not true that members without parameters see none. -/
theorem kiln_lid_sees_parameters : ¬∀ x act m m' step k held, kiln.descriptors[1]? = some x →
    act ∈ x.creating none → Meets ⟨kiln, act, []⟩ m → step ∈ m.act.step? → step.parameters = none →
      m.Initializes m' → m'.Receives k held → held = none := by
  intro h
  obtain ⟨x, act, m, m', step, hx, hact, hm, hstep, hnone, hi, hreceives⟩ := exists_kiln_lid
  cases h x act m m' step 0 _ hx hact hm hstep hnone hi hreceives

/-- When the pot is built, its own constructor is run after its fields have been built, and then the
carrier holds no parameters. -/
theorem kiln_pot : (kiln.descriptors[1]?).any (fun x => (x.creating none).any fun act =>
    (walk (Calls.nested 12) (fun _ => true) [0, 0] ⟨kiln, act, []⟩).any fun b =>
      (b.next (Calls.nested 12))[0]?.any fun m =>
        b.act.step?.any (fun step => step.slot = 0 && step.parameters = some [.ofBool true] &&
          !step.source.isDirect) &&
        decide (0 < m.world.heap.carriers.size ∧ m.act.argument? = some 0) &&
        m.act.isConstructor && (walk (Calls.nested 12) (fun m => m.act.isConstructor) [0, 2, 0] m).any
          fun m' => (m'.next (Calls.nested 12))[0]?.any (fun m'' => m''.act.isUser) &&
            decide (m'.Receives 0 none)) = true := by
  decide +kernel

theorem exists_kiln_pot : ∃ x act m₁ b m m' m'', kiln.descriptors[1]? = some x ∧
    act ∈ x.creating none ∧ Starts ⟨kiln, act, []⟩ m₁ ∧ m₁.Starts b ∧
      (∃ step ∈ b.act.step?, step.slot = 0) ∧ b.Installs 0 [.ofBool true] m ∧
        0 < m.world.heap.carriers.size ∧ m.act.argument? = some 0 ∧ b.Initializes m' ∧
          m'.Starts m'' ∧ m''.act.isUser = true ∧ m'.Receives 0 none := by
  have h := kiln_pot
  simp only [Option.any_eq_true, Bool.and_eq_true, decide_eq_true_eq, Bool.not_eq_true'] at h
  obtain ⟨x, hx, act, hact, b, hb, m, hm, ⟨⟨⟨⟨step, hstep, ⟨hslot, hps⟩, hdirect⟩, hsize,
    hargument⟩, hc⟩, m', hm', ⟨m'', hm'', huser⟩, hreceives⟩⟩ := h
  obtain ⟨m₁, hm₁, -, hb⟩ := exists_of_walk_cons hb
  obtain ⟨b', hb', -, hb⟩ := exists_of_walk_cons hb
  obtain rfl := Option.some.inj hb
  have hs := starts_of_mem_next (List.mem_of_getElem? hm)
  exact ⟨x, act, m₁, b', m, m', m'', hx, hact, starts_of_mem_next hm₁, starts_of_mem_next hb',
    ⟨step, hstep, hslot⟩, hs.installs hstep hps hdirect hargument, hsize, hargument,
    .head hs hc (initializes_of_walk hm'), starts_of_mem_next (List.mem_of_getElem? hm''), huser,
    hreceives⟩

theorem kiln_arises : kiln.Arises :=
  asked_arises (by decide +kernel) (by decide) (by decide) (by decide +kernel) (.cls 2)

/-- The property of trays. -/
def kilnPot : PropertyDecl :=
  { World.forestProperty (.cls 1) with attributes := [.parameters [.ofBool true]] }

/-- The parameters of the pot reach the implementation of its class. -/
theorem parameters_reach_kiln : ∃ x act m₁ b m, kiln.descriptors[1]? = some x ∧
    act ∈ x.creating none ∧ Starts ⟨kiln, act, []⟩ m₁ ∧ m₁.Starts b ∧
      b.Installs 0 [.ofBool true] m ∧ m.Delivers 0 [.ofBool true] := by
  obtain ⟨x, act, m₁, b, m, m', m'', hx, hact, hm₁, hb, ⟨step, hstep, hslot⟩, hi, hsize, hargument, -⟩ :=
    exists_kiln_pot
  have hundisturbed : Undisturbed ⟨kiln, act, []⟩ :=
    undisturbed_of_survey (World.all_creating kiln_undisturbed hx act hact)
  obtain ⟨registry, _, hr, hc, hx', -, hproduct⟩ := exists_published (w := kiln) (r := 0) (t := .cls 2)
    (e := 1) (p := .cls 4) (by decide +kernel) (by decide +kernel)
  obtain rfl := Option.some.inj (hx.symm.trans hx')
  have hprovider : (kiln.registries[0]?).all (fun registry =>
      decide (registry.provider.overrides (.cls 2) kilnPot = []) &&
      decide (registry.provider.parameters (.cls 2) kilnPot = some [.ofBool true]) &&
      registry.provider.owns kiln.schema (.cls 1)) = true := by
    decide +kernel
  rw [hr, Option.all_some, Bool.and_eq_true, Bool.and_eq_true, decide_eq_true_eq,
    decide_eq_true_eq] at hprovider
  obtain ⟨⟨hoverrides, hparameters⟩, howns⟩ := hprovider
  have hproperty : kilnPot ∈ kiln.schema.abstractProperties (.cls 2) :=
    Schema.mem_abstractProperties.mpr ⟨⟨.cls 2, .head _⟩, rfl⟩
  obtain ⟨d, j, hd, hfield, hreach⟩ := World.parameters_reach kiln_arises hr hc hx (by decide +kernel)
    hproperty hparameters (.declared hoverrides) howns (.inl (by decide +kernel))
  -- trays have one field, so the step is the one for it
  have hlayout : (kiln.schema.decl? (.cls 4)).all (fun d => d.layout.length == 1) = true := by
    decide +kernel
  rw [← hproduct, hd, Option.all_some, beq_iff_eq] at hlayout
  obtain ⟨f, hf, -⟩ := hfield.field
  have hj : j = 0 := by
    have hlt := (List.getElem?_eq_some_iff.mp hf).1
    omega
  have hb' := hb
  obtain ⟨w₁, o, args, p, os, rfl, hmem⟩ := hb.plan_of_step hstep
  obtain ⟨ctor, hctor, hbody⟩ := World.body_of_creating hd hact hm₁
  obtain ⟨p', step', hp', hbuilds, -, hdelivers⟩ := hreach ctor hctor
  obtain rfl := ConstructorBody.plan.inj (hbody.symm.trans hp')
  obtain rfl := hbuilds.eq_of_slot hmem (hslot.trans hj.symm)
  obtain ⟨b₀, act', os'⟩ := b
  obtain ⟨o', cs, rfl⟩ : ∃ o' cs, act' = .build o' step cs := by
    cases act' with
    | build o' s cs => exact ⟨o', cs, by rw [Option.some.inj hstep]⟩
    | _ => cases hstep
  have hb₀ := (hundisturbed.starts hm₁).starts hb'
  exact ⟨x, act, _, _, m, hx, hact, hm₁, hb', hdelivers b₀ o' cs os' m 0 hi.starts hargument hb₀ hsize⟩

/-- They do not reach the constructor of the abstract class, since the body of the pot has parameters
as well. -/
theorem kiln_pot_misses_parameters : ¬∀ x act b m m' m'' k vs held,
    kiln.descriptors[1]? = some x → act ∈ x.creating none → Meets ⟨kiln, act, []⟩ b →
      b.Installs k vs m → b.Initializes m' → m'.Starts m'' → m''.act.isUser = true →
        m'.Receives k held → held = some vs := by
  intro h
  obtain ⟨x, act, m₁, b, m, m', m'', hx, hact, hm₁, hb, -, hi, -, -, hm', hm'', huser, hreceives⟩ :=
    exists_kiln_pot
  cases h x act b m m' m'' 0 _ _ hx hact ((Meets.single hm₁).tail hb) hi hm' hm'' huser hreceives

end Scene

end RecordForge
