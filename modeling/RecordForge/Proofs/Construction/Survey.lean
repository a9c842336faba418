import RecordForge.Proofs.Construction.Progress

/-!
# Looking at all situations

What is met in the course of an act is a matter of finitely many runs: `Situation.next` lists the acts
that an act starts, and `Situation.survey` looks at all that are met, down to some level. So what a
creation depends on can be found out for a given world by evaluation: whether users let it succeed, for
one (`Situation.cooperates_of_survey`).
-/

namespace RecordForge

open Run

/-! ## One bound for all depths -/

section
variable {α : Type} {x : Calls → Run α} {w w' : World} {a : α} {n : Nat}

theorem Act.run_uniform (act : Act) : Calls.Uniform fun c => act.run c := by
  intro c c' h
  cases act with
  | construct t k args => exact (h.construct t k args).map
  | chain t k o args => exact h.chain t k o args
  | body o args b => exact b.run_approximates h o args
  | build o step cs => exact (step.run_approximates h o cs).map
  | inform o i => exact i.run_approximates h o
  | perform f r => exact (r.run_approximates h).map

/-- A run that is not exhausted at a depth ends there as it does in the end. -/
theorem Run.Returns.at_depth (h : Returns x w a w') (hx : Calls.Uniform x)
    (hn : (x (Calls.nested n) w).1 ≠ .error .exhausted) :
    x (Calls.nested n) w = (.ok a, w') := by
  obtain ⟨N, h⟩ := h
  rw [← Calls.nested_approximates hx (Nat.le_max_left n N) hn]
  exact h _ (Nat.le_max_right n N)

/-- If a sequence is not exhausted, then neither is its first part. -/
theorem Run.ne_exhausted_of_bind {β : Type} {y : Run α} {f : α → Run β}
    (h : ((y >>= f) w).1 ≠ .error .exhausted) : (y w).1 ≠ .error .exhausted := by
  intro he
  exact h (congrArg Prod.fst (bind_of_error (Prod.ext he rfl)))

/-- If a plan is not exhausted, then neither are the receivers that it tells. -/
theorem ConstructionPlan.ne_exhausted {c : Calls} {o : ObjectId} {args : List Value} {cs : Carriers}
    {p : ConstructionPlan}
    (h : BuildStep.runAll c o p.steps (p.carriers args) w = (.ok cs, w'))
    (hn : (p.run c o args w).1 ≠ .error .exhausted) :
    (p.infos.forM (InfoStep.run c o) w').1 ≠ .error .exhausted := by
  have hrest : p.run c o args w = _ := bind_of_ok h
  rw [hrest] at hn
  exact ne_exhausted_of_bind hn

end

namespace Situation

/-! ## What an act starts -/

section
variable (c : Calls) (o : ObjectId) (os : List ObjectId)

/-- The fields that steps build. -/
def builds : List BuildStep → Carriers → World → List Situation
  | [], _, _ => []
  | step :: steps, cs, w =>
    ⟨w, .build o step cs, o :: os⟩ :: following (step.run c o cs) (builds steps) w

/-- The values of fields that are told their properties. -/
def informs : List InfoStep → World → List Situation
  | [], _ => []
  | i :: is, w => ⟨w, .inform o i, o :: os⟩ :: following (i.run c o) (fun _ => informs is) w

/-- What a plan starts: it builds fields, then tells their values the properties, and runs the
constructor of the abstract class at last. -/
def planned (args : List Value) (p : ConstructionPlan) (w : World) : List Situation :=
  builds c o os p.steps (p.carriers args) w ++
    following (BuildStep.runAll c o p.steps (p.carriers args)) (fun cs w =>
      informs c o os p.infos w ++
        following (p.infos.forM (InfoStep.run c o)) (fun _ w =>
          p.base.toList.flatMap fun b => following (b.arguments cs) (fun values w =>
            [⟨w, .chain b.target b.constructor o values, os⟩]) w) w) w

end

/-- What a step starts to make the value of its field. -/
def made (os : List ObjectId) (step : BuildStep) (cs : Carriers) (w : World) :
    List Situation :=
  match step.source with
  | .direct t k operands =>
    following (Operand.loadAll step.parameters operands) (fun values w =>
      [⟨w, .construct t k values, os⟩]) w
  | .withCarrier t k source =>
    following (cs.take source) (fun r w =>
      [⟨w.hold r.1 step.parameters, .construct t k [.carrier r.1], os⟩]) w
  | .lookup l source =>
    following (resolve l) (fun x w => following (cs.take source) (fun r w =>
      x.factoryConstructor.toList.map fun k =>
        ⟨w.hold r.1 step.parameters, .construct x.product k (x.given r.1), os⟩) w) w

/-- What an act starts, as far as calls reach. -/
def next (c : Calls) (m : Situation) : List Situation :=
  match m.act with
  | .construct t k args =>
    following (check fun w => w.schema.constructorFor t k args.length) (fun decl w =>
      (w.newObject t).toList.map fun ow => ⟨ow.2, .body ow.1 args decl.body, m.building⟩) m.world
  | .chain t k o args =>
    following (check fun w => w.schema.constructorFor t k args.length) (fun decl w =>
      [⟨w, .body o args decl.body, m.building⟩]) m.world
  | .body o args (.routine r) => [⟨m.world, .perform { this := some o, args } r, m.building⟩]
  | .body o _ (.chain (some (t, k))) => [⟨m.world, .chain t k o [], m.building⟩]
  | .body o args (.plan p) => planned c o m.building args p m.world
  | .body _ _ _ => []
  | .build _ step cs => made m.building step cs m.world
  | .inform o i =>
    following (check (·.field o i.slot)) (fun v w => v.object?.toList.flatMap fun target =>
      (w.schema.receiver? (w.classOf target)).toList.map fun r =>
        ⟨w, .perform { this := some target, info := some ⟨o, i.propertyType, i.property⟩ } r,
          m.building⟩) m.world
  | .perform .. => []

section
variable {c : Calls} {o : ObjectId} {os : List ObjectId} {w w' : World}

theorem mem_builds {before after : List BuildStep} {step : BuildStep} {cs cs' : Carriers}
    (h : BuildStep.runAll c o before cs w = (.ok cs', w')) :
    ⟨w', .build o step cs', o :: os⟩ ∈ builds c o os (before ++ step :: after) cs w := by
  induction before generalizing cs w with
  | nil =>
    obtain ⟨rfl, rfl⟩ := pure_eq_ok_iff.mp h
    exact List.mem_cons_self
  | cons s before ih =>
    obtain ⟨cs₁, w₁, hs, hrest⟩ := bind_eq_ok_iff.mp h
    refine List.mem_cons_of_mem _ ?_
    rw [following_of_ok hs]
    exact ih hrest

theorem mem_informs {is js : List InfoStep} {i : InfoStep}
    (h : is.forM (InfoStep.run c o) w = (.ok (), w')) :
    ⟨w', .inform o i, o :: os⟩ ∈ informs c o os (is ++ i :: js) w := by
  induction is generalizing w with
  | nil =>
    obtain ⟨-, rfl⟩ := pure_eq_ok_iff.mp h
    exact List.mem_cons_self
  | cons j is ih =>
    obtain ⟨_, w₁, hj, hrest⟩ := bind_eq_ok_iff.mp h
    refine List.mem_cons_of_mem _ ?_
    rw [following_of_ok hj]
    exact ih hrest

end

/-- **What an act starts is listed**, if calls reach as far as the act does. -/
theorem Starts.mem_next {n : Nat} {m m' : Situation} (h : Starts m m')
    (hn : (m.act.run (Calls.nested n) m.world).1 ≠ .error .exhausted) :
    m' ∈ m.next (Calls.nested n) := by
  cases h with
  | construct hd hnew =>
    simp only [Situation.next]
    rw [following_of_ok (check_of_ok hd)]
    simp [hnew]
  | chain hd =>
    simp only [Situation.next]
    rw [following_of_ok (check_of_ok hd)]
    exact List.mem_singleton.mpr rfl
  | routine => exact List.mem_singleton.mpr rfl
  | next => exact List.mem_singleton.mpr rfl
  | @build w w' o args p _ before after step cs hp h =>
    have hbefore : (BuildStep.runAll (Calls.nested n) o before (p.carriers args) w).1 ≠
        .error .exhausted := by
      refine ne_exhausted_of_bind (f := BuildStep.runAll (Calls.nested n) o (step :: after)) ?_
      rw [← BuildStep.runAll_append, ← hp]
      exact ne_exhausted_of_bind hn
    refine List.mem_append_left _ ?_
    rw [hp]
    exact mem_builds (h.at_depth (fun c c' ha => BuildStep.runAll_approximates ha _ _ _) hbefore)
  | @inform _ w' w'' o args p _ is js i cs hp h hi =>
    have hsteps := h.at_depth (fun c c' ha => BuildStep.runAll_approximates ha _ _ _)
      (ne_exhausted_of_bind hn)
    have hinfos := ConstructionPlan.ne_exhausted hsteps hn
    have hbefore : (is.forM (InfoStep.run (Calls.nested n) o) w').1 ≠ .error .exhausted := by
      refine ne_exhausted_of_bind (f := fun _ => (i :: js).forM (InfoStep.run (Calls.nested n) o)) ?_
      rw [← InfoStep.runAll_append, ← hp]
      exact hinfos
    refine List.mem_append_right _ ?_
    rw [following_of_ok hsteps]
    refine List.mem_append_left _ ?_
    rw [hp]
    exact mem_informs (hi.at_depth (fun c c' ha => InfoStep.runAll_approximates ha _ _) hbefore)
  | @base _ w' w'' w₃ o args values p _ b cs hp h hi ha =>
    have hsteps := h.at_depth (fun c c' ha => BuildStep.runAll_approximates ha _ _ _)
      (ne_exhausted_of_bind hn)
    have hinfos := hi.at_depth (fun c c' ha => InfoStep.runAll_approximates ha _ _)
      (ConstructionPlan.ne_exhausted hsteps hn)
    refine List.mem_append_right _ ?_
    rw [following_of_ok hsteps]
    refine List.mem_append_right _ ?_
    rw [following_of_ok hinfos, hp]
    refine List.mem_flatMap.mpr ⟨b, List.mem_singleton.mpr rfl, ?_⟩
    rw [following_of_ok ha]
    exact List.mem_singleton.mpr rfl
  | direct hs hl =>
    simp only [Situation.next, made, hs]
    rw [following_of_ok hl]
    exact List.mem_singleton.mpr rfl
  | withCarrier hs ht =>
    simp only [Situation.next, made, hs]
    rw [following_of_ok ht]
    exact List.mem_singleton.mpr rfl
  | lookup hs hr ht hk =>
    simp only [Situation.next, made, hs]
    rw [following_of_ok (resolve_eq_ok_iff.mpr hr), following_of_ok ht, hk]
    exact List.mem_singleton.mpr rfl
  | inform_receiver hf hr =>
    simp only [Situation.next]
    rw [following_of_ok (check_of_ok hf)]
    simp [Value.object?, hr]

section
variable {c : Calls} {o : ObjectId} {os : List ObjectId} {w : World} {m : Situation}

theorem exists_of_mem_builds {steps : List BuildStep} {cs : Carriers}
    (h : m ∈ builds c o os steps cs w) :
    ∃ before step after cs' w', steps = before ++ step :: after ∧
      BuildStep.runAll c o before cs w = (.ok cs', w') ∧ m = ⟨w', .build o step cs', o :: os⟩ := by
  induction steps generalizing cs w with
  | nil => cases h
  | cons step steps ih =>
    rcases List.mem_cons.mp h with rfl | h
    · exact ⟨[], step, steps, cs, w, rfl, rfl, rfl⟩
    · obtain ⟨cs₁, w₁, hstep, h⟩ := mem_following_iff.mp h
      obtain ⟨before, s, after, cs', w', rfl, hrun, rfl⟩ := ih h
      exact ⟨step :: before, s, after, cs', w', rfl, (bind_of_ok hstep).trans hrun, rfl⟩

theorem exists_of_mem_informs {is : List InfoStep} (h : m ∈ informs c o os is w) :
    ∃ before i after w', is = before ++ i :: after ∧
      before.forM (InfoStep.run c o) w = (.ok (), w') ∧ m = ⟨w', .inform o i, o :: os⟩ := by
  induction is generalizing w with
  | nil => cases h
  | cons i is ih =>
    rcases List.mem_cons.mp h with rfl | h
    · exact ⟨[], i, is, w, rfl, rfl, rfl⟩
    · obtain ⟨_, w₁, hi, h⟩ := mem_following_iff.mp h
      obtain ⟨before, j, after, w', rfl, hrun, rfl⟩ := ih h
      exact ⟨i :: before, j, after, w', rfl, (bind_of_ok hi).trans hrun, rfl⟩

end

/-- What is listed is started. -/
theorem starts_of_mem_next {n : Nat} {m m' : Situation} (h : m' ∈ m.next (Calls.nested n)) :
    m.Starts m' := by
  obtain ⟨w, act, os⟩ := m
  cases act with
  | construct t k args =>
    obtain ⟨decl, w₁, hd, h⟩ := mem_following_iff.mp h
    obtain ⟨hd, rfl⟩ := check_eq_ok_iff.mp hd
    obtain ⟨⟨o, w'⟩, hn, rfl⟩ := List.mem_map.mp h
    exact .construct hd (Option.mem_toList.mp hn)
  | chain t k o args =>
    obtain ⟨decl, w₁, hd, h⟩ := mem_following_iff.mp h
    obtain ⟨hd, rfl⟩ := check_eq_ok_iff.mp hd
    obtain rfl := List.mem_singleton.mp h
    exact .chain hd
  | body o args b =>
    cases b with
    | routine r =>
      obtain rfl := List.mem_singleton.mp h
      exact .routine
    | chain base =>
      cases base with
      | none => cases h
      | some tk =>
        obtain rfl := List.mem_singleton.mp h
        exact .next
    | wrapped kind => cases h
    | plan p =>
      rcases List.mem_append.mp h with h | h
      · obtain ⟨before, step, after, cs, w', hp, hrun, rfl⟩ := exists_of_mem_builds h
        exact .build hp (.of_steps hrun)
      · obtain ⟨cs, w', hrun, h⟩ := mem_following_iff.mp h
        have hsteps : Returns (fun c => BuildStep.runAll c o p.steps (p.carriers args)) w cs w' := .of_steps hrun
        rcases List.mem_append.mp h with h | h
        · obtain ⟨before, i, after, w'', hp, hrun, rfl⟩ := exists_of_mem_informs h
          exact .inform hp hsteps (.of_infos hrun)
        · obtain ⟨_, w'', hrun, h⟩ := mem_following_iff.mp h
          obtain ⟨b, hb, h⟩ := List.mem_flatMap.mp h
          obtain ⟨values, w₃, ha, h⟩ := mem_following_iff.mp h
          obtain rfl := List.mem_singleton.mp h
          exact .base (Option.mem_toList.mp hb) hsteps (.of_infos hrun) ha
  | build o step cs =>
    simp only [Situation.next, made] at h
    cases hs : step.source with
    | direct t k operands =>
      rw [hs] at h
      obtain ⟨values, w', hl, h⟩ := mem_following_iff.mp h
      obtain rfl := List.mem_singleton.mp h
      exact .direct hs hl
    | withCarrier t k source =>
      rw [hs] at h
      obtain ⟨r, w', ht, h⟩ := mem_following_iff.mp h
      obtain rfl := List.mem_singleton.mp h
      exact .withCarrier hs ht
    | lookup l source =>
      rw [hs] at h
      obtain ⟨x, w', hr, h⟩ := mem_following_iff.mp h
      obtain ⟨r, w'', ht, h⟩ := mem_following_iff.mp h
      obtain ⟨k, hk, rfl⟩ := List.mem_map.mp h
      exact .lookup hs (resolve_eq_ok_iff.mp hr) ht (Option.mem_toList.mp hk)
  | inform o i =>
    obtain ⟨v, w', hv, h⟩ := mem_following_iff.mp h
    obtain ⟨hv, rfl⟩ := check_eq_ok_iff.mp hv
    obtain ⟨target, htarget, h⟩ := List.mem_flatMap.mp h
    obtain ⟨r, hr, rfl⟩ := List.mem_map.mp h
    cases v with
    | object target' =>
      obtain rfl := Option.some.inj (Option.mem_toList.mp htarget)
      exact .inform_receiver hv (Option.mem_toList.mp hr)
    | null => cases htarget
    | scalar s => cases htarget
    | carrier k => cases htarget
  | perform f r => cases h

/-- A walk from a situation: at each level it goes on with one of the acts that are started, if that
passes a check. -/
def walk (c : Calls) (check : Situation → Bool) : List Nat → Situation → Option Situation
  | [], m => some m
  | i :: is, m => ((m.next c)[i]?.filter check).bind (walk c check is)

theorem exists_of_walk_cons {c : Calls} {check : Situation → Bool} {i : Nat} {is : List Nat}
    {m m' : Situation} (h : walk c check (i :: is) m = some m') :
    ∃ m₁ ∈ m.next c, check m₁ = true ∧ walk c check is m₁ = some m' := by
  obtain ⟨m₁, hm₁, h⟩ := Option.bind_eq_some_iff.mp h
  obtain ⟨hm₁, hcheck⟩ := Option.filter_eq_some_iff.mp hm₁
  exact ⟨m₁, List.mem_of_getElem? hm₁, hcheck, h⟩

theorem meets_of_walk {n : Nat} {check : Situation → Bool} {is : List Nat} {m m' : Situation}
    (h : walk (Calls.nested n) check is m = some m') : m.Meets m' := by
  induction is generalizing m with
  | nil =>
    obtain rfl := Option.some.inj h
    exact .refl
  | cons i is ih =>
    obtain ⟨m₁, hm₁, -, h⟩ := exists_of_walk_cons h
    exact (Meets.single (starts_of_mem_next hm₁)).trans (ih h)

/-! ## Surveys -/

/-- Whether calls reach as far as the act does. -/
def reached (c : Calls) (m : Situation) : Bool :=
  match (m.act.run c m.world).1 with
  | .error .exhausted => false
  | _ => true

/-- Whether all situations that are met pass a check, none of them is met further than some levels
down, and calls reach as far as they do. -/
def survey (c : Calls) (check : Situation → Bool) : Nat → Situation → Bool
  | 0, _ => false
  | levels + 1, m => m.reached c && check m && (m.next c).all (survey c check levels)

section
variable {n levels : Nat} {check : Situation → Bool} {m m' : Situation}

theorem reached_iff : m.reached (Calls.nested n) = true ↔
    (m.act.run (Calls.nested n) m.world).1 ≠ .error .exhausted := by
  rw [reached]
  split
  · next h => simp [h]
  · next h => simpa using h

/-- **A survey sees all that is met.** -/
theorem survey_meets (h : survey (Calls.nested n) check levels m = true) (hm : m.Meets m') :
    m'.reached (Calls.nested n) = true ∧ check m' = true := by
  induction levels generalizing m with
  | zero => cases h
  | succ levels ih =>
    rw [survey, Bool.and_eq_true, Bool.and_eq_true, List.all_eq_true] at h
    obtain ⟨hhere, hnext⟩ := h
    rcases hm.cases_head with rfl | ⟨m₁, hs, hm⟩
    · exact hhere
    · exact ih (hnext m₁ (hs.mem_next (reached_iff.mp hhere.1))) hm

instance (w : World) (l : LookupId) : Decidable (w.Answers l) :=
  inferInstanceAs (Decidable (∀ lookup ∈ w.lookups[l]?,
    ∀ registry ∈ w.registries[lookup.registry]?, registry.isAlive = true))

instance (w w' : World) (os : List ObjectId) : Decidable (w.Spares os w') :=
  inferInstanceAs (Decidable (∀ o ∈ os, w'.heap.object? o = w.heap.object? o))

/-- Whether the act returns, a user leaves the objects that are being built as they are, and a
registry that is asked is alive. -/
def cooperates (c : Calls) (m : Situation) : Bool :=
  match m.act.run c m.world with
  | (.error _, _) => false
  | (.ok _, w) => (!m.act.isUser || decide (m.world.Spares m.building w)) &&
      decide (∀ l ∈ m.act.lookup?, m.world.Answers l)

/-- Users let an act succeed if they do so for one bound on calls. -/
theorem cooperates_of_survey
    (h : survey (Calls.nested n) (cooperates (Calls.nested n)) levels m = true) :
    m.Cooperates := by
  have hall : ∀ m', m.Meets m' → ∃ w, m'.Ends w ∧
      (m'.act.isUser = true → m'.world.Spares m'.building w) ∧
        ∀ l ∈ m'.act.lookup?, m'.world.Answers l := by
    intro m' hm
    have hcheck := (survey_meets h hm).2
    rw [cooperates] at hcheck
    split at hcheck
    · cases hcheck
    · next w hrun =>
      refine ⟨w, .of_depth m'.act.run_uniform hrun, ?_⟩
      simpa [Bool.or_eq_true, Bool.not_eq_true', imp_iff_not_or] using hcheck
  refine ⟨fun m' hm hu => ?_, fun m' hm => ?_⟩
  · obtain ⟨w, hends, hspares, -⟩ := hall m' hm
    exact ⟨w, hends, hspares hu⟩
  · obtain ⟨-, -, -, hanswers⟩ := hall m' hm
    exact hanswers

end

end Situation

end RecordForge
