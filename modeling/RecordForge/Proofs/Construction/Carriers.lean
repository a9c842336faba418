import RecordForge.Proofs.Construction.Reports

/-!
# Carriers after a creation

While a step with construction parameters runs, its carrier holds them. However the step ends, and with
it the creation that it belongs to, the carrier holds none afterwards: a creation leaves all carriers
that it has used, or made, without parameters (`World.creation_clears`). That is as long as no body of
a user replaces the parameters of a carrier on its own (`Situation.Undisturbed`).
-/

namespace RecordForge

open Run Traced

/-! ## Runs that replace no parameters -/

namespace Traced

variable {α β : Type} {y : Traced α} {f : α → Traced β} {w : World}

/-- From a world, a run replaces the parameters of no carrier. -/
def Honors (y : Traced α) (w : World) : Prop := ∀ k, .replaced k ∉ y.notes w

theorem Honors.pure (a : α) : Honors (Pure.pure a) w := fun _ h => nomatch h

theorem Honors.lift (y : Run α) : Honors (Traced.lift y) w := by
  intro k h
  obtain ⟨e, -, he⟩ := List.mem_map.mp h
  cases he

theorem Honors.bind (hy : Honors y w)
    (hf : ∀ a w', y.run w = (.ok a, w') → Honors (f a) w') : Honors (y >>= f) w := by
  intro k h
  rw [notes_bind, List.mem_append, following] at h
  rcases h with h | h
  · exact hy k h
  · split at h
    · next a w' hrun => exact hf a w' hrun k h
    · cases h

theorem Honors.map {f : α → β} (hy : Honors y w) : Honors (f <$> y) w := by
  intro k h
  rw [notes_map] at h
  exact hy k h

theorem Honors.withParameters {carrier : CarrierId} {parameters : Option (List Value)}
    (hy : Honors y (w.hold carrier parameters)) :
    Honors (Traced.withParameters carrier parameters y) w := by
  intro k h
  rcases List.mem_append.mp h with h | h
  · obtain ⟨vs, -, he⟩ := List.mem_map.mp h
    cases he
  · exact hy k h

theorem Honors.conclude (d : Descriptor) (r : Creation) : Honors (d.conclude r) w := by
  intro k h
  cases List.mem_singleton.mp h

end Traced

/-! ## Undisturbed acts -/

namespace Situation

/-- No body of a user that is run in the course of an act replaces the parameters of a carrier. -/
def Undisturbed (m : Situation) : Prop :=
  ∀ m', m.Meets m' → m'.act.isUser = true →
    ∀ depth, (m'.act.traced (TracedCalls.nested depth)).Honors m'.world

theorem Undisturbed.starts {m m' : Situation} (h : m.Undisturbed) (hs : m.Starts m') :
    m'.Undisturbed := fun m₁ h₁ => h m₁ ((Meets.single hs).trans h₁)

theorem Undisturbed.meets {m m' : Situation} (h : m.Undisturbed) (hm : m.Meets m') :
    m'.Undisturbed := fun m₁ h₁ => h m₁ (hm.trans h₁)

/-- Down to a depth, constructors that are run replace no parameters. -/
structure CallsHonor (depth : Nat) : Prop where
  construct : ∀ {w t k args os}, Undisturbed ⟨w, .construct t k args, os⟩ →
    ((TracedCalls.nested depth).construct t k args).Honors w
  chain : ∀ {w t k o args os}, Undisturbed ⟨w, .chain t k o args, os⟩ →
    ((TracedCalls.nested depth).chain t k o args).Honors w

section
variable {depth : Nat} (hc : CallsHonor depth) {w w₁ : World} {o : ObjectId} {os : List ObjectId}
variable {step : BuildStep} {cs : Carriers} {args : List Value} {p : ConstructionPlan}
include hc

theorem guarded_honors {x : Descriptor} {k : Nat}
    (h : Undisturbed ⟨w, .construct x.product k args, os⟩) :
    (x.tracedGuarded (TracedCalls.nested depth) k args).Honors w := by
  have hconstruct : ((TracedCalls.nested depth).construct x.product k args).Honors w :=
    hc.construct h
  refine Honors.bind (y := Traced.outcome _) hconstruct fun r w' _ => ?_
  cases Descriptor.creationOf r with
  | some r => exact .conclude x r
  | none => exact .lift _

theorem create_honors {x : Descriptor} {given : Option CarrierId}
    (h : ∀ act ∈ x.creating given, Undisturbed ⟨w, act, os⟩) :
    (x.tracedCreate (TracedCalls.nested depth) given).Honors w := by
  cases given with
  | none =>
    rw [Descriptor.tracedCreate]
    cases hk : x.defaultConstructor with
    | none => exact .conclude x _
    | some k => exact guarded_honors hc (h _ (by rw [Descriptor.creating, hk]; rfl))
  | some carrier =>
    rw [Descriptor.tracedCreate]
    cases hk : x.factoryConstructor with
    | none => exact .conclude x _
    | some k => exact guarded_honors hc (h _ (by rw [Descriptor.creating, hk]; rfl))

theorem build_honors (h : Undisturbed ⟨w, .build o step cs, os⟩) :
    (step.tracedBuild (TracedCalls.nested depth) cs).Honors w := by
  rw [BuildStep.tracedBuild]
  cases hs : step.source with
  | direct t k operands =>
    exact (Honors.lift _).bind fun values w' hl =>
      (hc.construct (h.starts (.direct hs hl))).bind fun _ _ _ => .pure _
  | withCarrier t k source =>
    exact (Honors.lift _).bind fun r w' ht =>
      (Honors.withParameters (hc.construct (h.starts (.withCarrier hs ht)))).bind
        fun _ _ _ => .pure _
  | lookup l source =>
    refine (Honors.lift _).bind fun x w' hr => (Honors.lift _).bind fun r w'' ht => ?_
    have hr : w.resolve l = .ok (x, w') := resolve_eq_ok_iff.mp hr
    have hcreate : ∀ act ∈ x.creating (some r.1),
        Undisturbed ⟨w''.hold r.1 step.parameters, act, os⟩ := fun act hact => by
      obtain ⟨k, hk, rfl⟩ := Option.map_eq_some_iff.mp hact
      exact h.starts (.lookup hs hr ht hk)
    exact (Honors.withParameters (create_honors hc hcreate)).bind
      fun _ _ _ => (Honors.lift _).bind fun _ _ _ => .pure _

theorem step_honors (h : Undisturbed ⟨w, .build o step cs, os⟩) :
    (step.traced (TracedCalls.nested depth) o cs).Honors w :=
  (build_honors hc h).bind fun _ _ _ => (Honors.lift _).bind fun _ _ _ => .pure _

theorem steps_honor (h : Undisturbed ⟨w, .body o args (.plan p), os⟩)
    (before : List BuildStep) {steps after : List BuildStep}
    (hp : p.steps = before ++ (steps ++ after))
    (hbefore : Returns (fun c => BuildStep.runAll c o before (p.carriers args)) w cs w₁) :
    (BuildStep.tracedAll (TracedCalls.nested depth) o steps cs).Honors w₁ := by
  induction steps generalizing before cs w₁ with
  | nil => exact .pure _
  | cons step steps ih =>
    refine (step_honors hc (h.starts (.build hp hbefore))).bind fun cs' w₂ hrun => ?_
    rw [step.traced_run, TracedCalls.nested_run] at hrun
    refine ih (before ++ [step]) (by rw [hp, List.append_assoc]; rfl) ?_
    simp only [BuildStep.runAll_concat]
    exact hbefore.bind (.of_step hrun)

omit hc in
theorem info_honors {i : InfoStep} (h : Undisturbed ⟨w, .inform o i, os⟩) :
    (i.traced (TracedCalls.nested depth) o).Honors w := by
  refine (Honors.lift _).bind fun v w' hv => ?_
  obtain ⟨hv, rfl⟩ := check_eq_ok_iff.mp hv
  cases v with
  | object target =>
    refine (Honors.lift _).bind fun body w'' hbody => ?_
    obtain ⟨hreceiver, rfl⟩ := pure_eq_ok_iff.mp hbody
    cases body with
    | some body => exact h.starts (.inform_receiver hv hreceiver) _ .refl rfl depth
    | none => exact .lift _
  | null => exact .lift _
  | scalar s => exact .lift _
  | carrier k => exact .lift _

omit hc in
theorem infos_honor (h : Undisturbed ⟨w, .body o args (.plan p), os⟩)
    (hsteps : Returns (fun c => BuildStep.runAll c o p.steps (p.carriers args)) w cs w₁)
    (before : List InfoStep) {is after : List InfoStep} (hp : p.infos = before ++ (is ++ after))
    {w₂ : World} (hbefore : Returns (fun c => before.forM (InfoStep.run c o)) w₁ () w₂) :
    (InfoStep.tracedAll (TracedCalls.nested depth) o is).Honors w₂ := by
  induction is generalizing before w₂ with
  | nil => exact .pure _
  | cons i is ih =>
    refine (info_honors (h.starts (.inform hp hsteps hbefore))).bind fun _ w₃ hrun => ?_
    rw [i.traced_run, TracedCalls.nested_run] at hrun
    refine ih (before ++ [i]) (by rw [hp, List.append_assoc]; rfl) ?_
    simp only [InfoStep.runAll_concat]
    exact hbefore.bind (.of_info hrun)

theorem plan_honors (h : Undisturbed ⟨w, .body o args (.plan p), os⟩) :
    (p.traced (TracedCalls.nested depth) o args).Honors w := by
  refine (steps_honor hc h [] (List.append_nil _).symm (.of_run fun _ => rfl)).bind fun cs w₁ hsteps => ?_
  rw [BuildStep.tracedAll_run, TracedCalls.nested_run] at hsteps
  have hsteps : Returns (fun c => BuildStep.runAll c o p.steps (p.carriers args)) w cs w₁ :=
    .of_steps hsteps
  refine (infos_honor h hsteps [] (List.append_nil _).symm (.of_run fun _ => rfl)).bind fun _ w₂ hinfos => ?_
  rw [InfoStep.tracedAll_run, TracedCalls.nested_run] at hinfos
  have hinfos : Returns (fun c => p.infos.forM (InfoStep.run c o)) w₁ () w₂ := .of_infos hinfos
  cases hb : p.base with
  | none => exact .pure _
  | some b =>
    exact (Honors.lift _).bind fun values w₃ ha => hc.chain (h.starts (.base hb hsteps hinfos ha))

theorem body_honors {b : ConstructorBody} (h : Undisturbed ⟨w, .body o args b, os⟩) :
    (b.traced (TracedCalls.nested depth) o args).Honors w := by
  cases b with
  | routine r => exact h.starts .routine _ .refl rfl depth
  | chain base =>
    cases base with
    | none => exact .lift _
    | some tk => exact hc.chain (h.starts .next)
  | wrapped kind => exact .lift _
  | plan p => exact plan_honors hc h

end

theorem calls_honor (depth : Nat) : CallsHonor depth := by
  induction depth with
  | zero => exact ⟨fun _ => .lift _, fun _ => .lift _⟩
  | succ depth ih =>
    refine ⟨fun {w t k args os} h => ?_, fun {w t k o args os} h => ?_⟩
    · refine (Honors.lift _).bind fun r w' henter => ?_
      obtain ⟨hd, hn⟩ := TracedCalls.enter_eq_ok henter
      exact (body_honors ih (h.starts (.construct hd hn))).bind fun _ _ _ => .pure _
    · refine (Honors.lift _).bind fun decl w' hd => ?_
      obtain ⟨hd, rfl⟩ := check_eq_ok_iff.mp hd
      exact body_honors ih (h.starts (.chain hd))

end Situation

/-! ## Plain routines -/

/-- The term makes no calls. -/
def Term.isPlain : Term → Bool
  | .property _ | .propertyOf .. | .construct .. => false
  | _ => true

/-- The step makes no calls and replaces no parameters. -/
def Action.isPlain : Action → Bool
  | .setField _ t | .give t | .log t => t.isPlain
  | .throw _ | .throwTimes .. | .panic _ => true
  | _ => false

section
variable {c : TracedCalls} {f : Frame} {w : World}

theorem Term.honors_of_isPlain {t : Term} (h : t.isPlain = true) : (t.traced c f).Honors w := by
  cases t with
  | property name => cases h
  | propertyOf target name => cases h
  | construct type k args => cases h
  | _ => exact .lift _

theorem Action.honors_of_isPlain {a : Action} (h : a.isPlain = true) : (a.traced c f).Honors w := by
  cases a with
  | setField name t =>
    exact (Term.honors_of_isPlain h).bind fun _ _ _ => .lift _
  | log t => exact (Term.honors_of_isPlain h).bind fun _ _ _ => .lift _
  | give t => exact .lift _
  | throw message => exact .lift _
  | throwTimes site count message => exact .lift _
  | panic reason => exact .lift _
  | setProperty name t => cases h
  | setPropertyOf target name t => cases h
  | chain type k args => cases h
  | setParameters index values => cases h

/-- A routine of plain steps replaces no parameters. -/
theorem Routine.honors_of_isPlain {r : Routine} (h : r.all Action.isPlain = true) :
    (Routine.traced c f r).Honors w := by
  induction r generalizing w with
  | nil => exact .pure _
  | cons a rest ih =>
    rw [List.all_cons, Bool.and_eq_true] at h
    have hnext : (do a.traced c f; Routine.traced c f rest : Traced Value).Honors w :=
      (Action.honors_of_isPlain h.1).bind fun _ _ _ => ih h.2
    cases a with
    | give t => exact Term.honors_of_isPlain h.1
    | setField name t => exact hnext
    | setProperty name t => exact hnext
    | setPropertyOf target name t => exact hnext
    | throw message => exact hnext
    | throwTimes site count message => exact hnext
    | panic reason => exact hnext
    | log t => exact hnext
    | chain type k args => exact hnext
    | setParameters index values => exact hnext

end

namespace Situation

/-- Whether a routine that is run is plain. -/
def isPlain (m : Situation) : Bool :=
  match m.act with
  | .perform _ r => r.all Action.isPlain
  | _ => true

theorem undisturbed_of_survey {n levels : Nat} {m : Situation}
    (h : survey (Calls.nested n) isPlain levels m = true) : m.Undisturbed := by
  intro m' hm hu depth
  have hplain := (survey_meets h hm).2
  obtain ⟨w, act, os⟩ := m'
  cases act with
  | perform f r => exact (Routine.honors_of_isPlain hplain).map
  | body o args b =>
    cases b with
    | wrapped kind => exact .lift _
    | routine r => cases hu
    | chain base => cases hu
    | plan p => cases hu
  | construct t k args => cases hu
  | chain t k o args => cases hu
  | build o step cs => cases hu
  | inform o i => cases hu

end Situation

/-! ## Main result -/

/-- **A creation leaves carriers without parameters.** However it ends, the carrier that was given
holds none after it if it held none before, and so does every carrier that was made in its course or
was given the parameters of a step. All others are as they were. -/
theorem World.creation_clears (w : World) (x : Descriptor) (given : Option CarrierId)
    (hgiven : ∀ k ∈ given, w.heap.parameters? k = none)
    (hundisturbed : ∀ act ∈ x.creating given, Situation.Undisturbed ⟨w, act, []⟩) (depth : Nat) :
    let notes := (x.tracedCreate (TracedCalls.nested depth) given).notes w
    let w' := (Run.create depth x given w).2
    (∀ k ∈ given, w'.heap.parameters? k = none) ∧
      (∀ k, w.heap.carriers.size ≤ k → w'.heap.parameters? k = none) ∧
      (∀ k, .installed k ∈ notes → w'.heap.parameters? k = none) ∧
      ∀ k, .installed k ∉ notes → w'.heap.parameters? k = w.heap.parameters? k := by
  intro notes w'
  have hhonors := Situation.create_honors (Situation.calls_honor depth) hundisturbed
  have haccounts : w.Accounts notes w' := by
    have h := x.create_accounted (TracedCalls.nested_accounted depth) given w
    rwa [← Run.create_eq] at h
  have hclear : ∀ k, w.heap.parameters? k = none → w'.heap.parameters? k = none := fun k hk => by
    by_cases hi : .installed k ∈ notes
    · exact haccounts.installed k (hhonors k) hi
    · rw [haccounts.untouched k (hhonors k) hi, hk]
  refine ⟨fun k hk => hclear k (hgiven k hk), fun k hk => hclear k ?_,
    fun k hi => haccounts.installed k (hhonors k) hi,
    fun k hi => haccounts.untouched k (hhonors k) hi⟩
  rw [Heap.parameters?, Array.getElem?_eq_none hk]
  rfl

namespace Scene

/-- The world of `mill`, with a carrier. -/
def milling : World := { mill with heap := mill.heap.newCarrier.2 }

theorem milling_undisturbed :
    (milling.descriptors[1]?).all (fun x => (x.creating (some 0)).all fun act =>
      Situation.survey (Calls.nested 10) Situation.isPlain 12 ⟨milling, act, []⟩) = true := by
  decide +kernel

/-- The carrier holds the parameters of a step while a constructor fails, and none afterwards. -/
theorem creation_clears_mill :
    ∃ x, milling.descriptors[1]? = some x ∧ x.isSynthesized = true ∧
      ∀ depth, (Run.create depth x (some 0) milling).2.heap.parameters? 0 = none ∧
        ∀ k, 1 ≤ k → (Run.create depth x (some 0) milling).2.heap.parameters? k = none := by
  obtain ⟨-, x, -, -, hx, hs, -⟩ := exists_published (w := milling) (r := 0) (t := .cls 1)
    (e := 1) (p := .cls 3) (by decide +kernel) (by decide +kernel)
  have hundisturbed : ∀ act ∈ x.creating (some 0), Situation.Undisturbed ⟨milling, act, []⟩ :=
    fun act hact =>
      Situation.undisturbed_of_survey (World.all_creating milling_undisturbed hx act hact)
  have hgiven : ∀ k ∈ some 0, milling.heap.parameters? k = none := fun k hk => by
    obtain rfl := Option.some.inj hk
    decide +kernel
  refine ⟨x, hx, hs, fun depth => ?_⟩
  obtain ⟨hcarrier, hmade, -⟩ := World.creation_clears milling x (some 0) hgiven hundisturbed depth
  exact ⟨hcarrier 0 rfl, hmade⟩

end Scene

end RecordForge
