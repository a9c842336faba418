import RecordForge.Proofs.Construction.Success
import RecordForge.Proofs.Construction.Notes

/-!
# Creations come to an end

Whatever users do, a creation comes to an end as long as the bodies do that users have written: it may
fail, but calls are not nested without bound. As for creations that succeed, the reason is the order of
the classes: the plan of a class runs constructors of earlier classes only.
-/

namespace RecordForge

open Run

/-! ## Runs that come to an end -/

namespace Run

variable {α β : Type} {x : Calls → Run α} {f : Calls → α → Run β} {w w' : World} {a : α}

/-- From a world, a run ends in some way when calls may be nested deep enough: it returns, or it halts
by a fault or a panic. -/
def Concludes (x : Calls → Run α) (w : World) : Prop :=
  ∃ N r w', r ≠ .error .exhausted ∧ ∀ n, N ≤ n → x (Calls.nested n) w = (r, w')

namespace Concludes

theorem of_returns (h : Returns x w a w') : Concludes x w := by
  obtain ⟨N, h⟩ := h
  exact ⟨N, .ok a, w', (fun he => nomatch he), h⟩

theorem of_run {r : Except Halt α} (hr : r ≠ .error .exhausted) (h : ∀ c, x c w = (r, w')) :
    Concludes x w := ⟨0, r, w', hr, fun _ _ => h _⟩

/-- A sequence comes to an end if its parts do. -/
theorem bind (hx : Concludes x w) (hf : ∀ a w', Returns x w a w' → Concludes (fun c => f c a) w') :
    Concludes (fun c => x c >>= f c) w := by
  obtain ⟨N, r, w', hr, h⟩ := hx
  cases r with
  | error e =>
    exact ⟨N, .error e, w', fun he => hr (congrArg _ (Except.error.inj he)),
      fun n hn => bind_of_error (h n hn)⟩
  | ok a =>
    obtain ⟨M, r', w'', hr', h'⟩ := hf a w' ⟨N, h⟩
    refine ⟨max N M, r', w'', hr', fun n hn => ?_⟩
    exact (bind_of_ok (h n (Nat.le_trans (Nat.le_max_left N M) hn))).trans
      (h' n (Nat.le_trans (Nat.le_max_right N M) hn))

/-- What a run does first, if that does not depend on the depth. -/
theorem after {y : Run α} (hy : y w = (.ok a, w')) (h : Concludes (fun c => f c a) w') :
    Concludes (fun c => y >>= f c) w :=
  bind (x := fun _ => y) (of_returns (.of_run fun _ => hy)) fun a' w'' h' => by
    obtain ⟨rfl, rfl⟩ := h'.unique (.of_run fun _ => hy)
    exact h

theorem fail (e : Fault) : Concludes (fun _ => (Run.fail e : Run α)) w :=
  of_run (r := .error (.fault e)) (fun he => nomatch he) fun _ => rfl

theorem check (q : World → Except Fault α) : Concludes (fun _ => Run.check q) w := by
  cases hq : q w with
  | ok a => exact of_returns (.of_run fun _ => check_of_ok hq)
  | error e =>
    have hfails : Run.check q w = (.error (.fault e), w) := by
      rw [check_run, hq]
    exact of_run (r := .error (.fault e)) (fun he => nomatch he) fun _ => hfails

theorem change (step : World → Except Fault World) : Concludes (fun _ => Run.change step) w :=
  (check step).bind fun _ _ _ => of_returns (.of_run fun _ => rfl)

theorem map {g : α → β} (hx : Concludes x w) : Concludes (fun c => g <$> x c) w :=
  hx.bind fun _ _ _ => of_returns (.of_run fun _ => rfl)

/-- How a run ends is known in the end. -/
theorem outcome (hx : Concludes x w) :
    ∃ r w', r ≠ .error .exhausted ∧ Returns (fun c => Run.outcome (x c)) w r w' := by
  obtain ⟨N, r, w', hr, h⟩ := hx
  refine ⟨r, w', hr, N, fun n hn => ?_⟩
  dsimp only
  rw [outcome_run, h n hn]

theorem withParameters {carrier : CarrierId} {parameters : Option (List Value)}
    (h : Concludes x (w.hold carrier parameters)) :
    Concludes (fun c => Run.withParameters carrier parameters (x c)) w := by
  obtain ⟨N, r, w', hr, h⟩ := h
  refine ⟨N, r, w'.release carrier parameters, hr, fun n hn => ?_⟩
  dsimp only
  rw [withParameters_run, h n hn]

/-- A run that is not exhausted at a depth comes to an end. -/
theorem of_depth {n : Nat} (hx : Calls.Uniform x)
    (hn : (x (Calls.nested n) w).1 ≠ .error .exhausted) : Concludes x w :=
  ⟨n, _, _, hn, fun _ hle => Calls.nested_approximates hx hle hn⟩

/-- Creating an object comes to an end if its constructor does. -/
theorem construct {t : Ty} {k : Nat} {args : List Value}
    (h : ∀ decl o w', w.schema.constructorFor t k args.length = .ok decl →
      w.newObject t = some (o, w') → Concludes (fun c => decl.body.run c o args) w') :
    Concludes (fun c => c.construct t k args) w := by
  have hstep : Concludes (fun c => c.constructStep t k args) w := by
    simp only [Calls.constructStep]
    refine after (y := MonadState.get) rfl ?_
    split
    · exact fail _
    · cases hd : w.schema.constructorFor t k args.length with
      | error e => exact of_run (r := .error (.fault e)) (by simp) fun _ => rfl
      | ok decl =>
        refine after (y := ofExcept (.ok decl)) rfl ?_
        cases hn : w.newObject t with
        | none => exact fail _
        | some ow =>
          obtain ⟨o, w'⟩ := ow
          refine after (y := MonadState.set w') rfl ?_
          exact (h decl o w' hd hn).map
  obtain ⟨N, r, w', hr, h⟩ := hstep
  refine ⟨N + 1, r, w', hr, fun n hn => ?_⟩
  obtain ⟨n, rfl⟩ : ∃ m, n = m + 1 := ⟨n - 1, by omega⟩
  exact h n (by omega)

/-- So does running a constructor on an object. -/
theorem chain {t : Ty} {k : Nat} {o : ObjectId} {args : List Value}
    (h : ∀ decl, w.schema.constructorFor t k args.length = .ok decl →
      Concludes (fun c => decl.body.run c o args) w) :
    Concludes (fun c => c.chain t k o args) w := by
  have hstep : Concludes (fun c => c.chainStep t k o args) w := by
    simp only [Calls.chainStep]
    refine (check _).bind fun decl w' hreturns => ?_
    obtain ⟨N, hcheck⟩ := hreturns
    obtain ⟨hd, rfl⟩ := check_eq_ok_iff.mp (hcheck N (Nat.le_refl N))
    exact h decl hd
  obtain ⟨N, r, w', hr, h⟩ := hstep
  refine ⟨N + 1, r, w', hr, fun n hn => ?_⟩
  obtain ⟨n, rfl⟩ : ∃ m, n = m + 1 := ⟨n - 1, by omega⟩
  exact h n (by omega)

end Concludes

end Run

/-! ## Situations that settle -/

/-- Every body of a user that is run in the course of an act comes to an end. -/
def Situation.Settles (m : Situation) : Prop :=
  ∀ m', m.Meets m' → m'.act.isUser = true → Concludes (fun c => m'.act.run c) m'.world

open Situation

theorem Situation.Settles.starts {m m' : Situation} (h : m.Settles) (hs : m.Starts m') :
    m'.Settles := fun m₁ h₁ => h m₁ ((Meets.single hs).trans h₁)

/-- All that is met comes to an end if it does so for one bound on calls. -/
theorem Situation.settles_of_survey {n levels : Nat} {m : Situation}
    (h : survey (Calls.nested n) (fun _ => true) levels m = true) :
    m.Settles := fun m' hm _ =>
  .of_depth m'.act.run_uniform (reached_iff.mp (survey_meets h hm).1)

/-- The constructors of a class come to an end. -/
def ConstructorsEnd (c : ClassId) : Prop :=
  ∀ {w : World} {d : ClassDecl} {ctor : ConstructorDecl} {o : ObjectId} {args : List Value}
    {os : List ObjectId}, w.Ready 0 → w.schema.class? c = some d → ctor ∈ d.constructors →
    Settles ⟨w, .body o args ctor.body, os⟩ → Concludes (fun calls => ctor.body.run calls o args) w

variable {w w₁ : World} {b c : ClassId} {t : Ty} {k : Nat} {o : ObjectId}
variable {os : List ObjectId} {args : List Value} {cs cs' : Carriers}
variable {step : BuildStep} {p : ConstructionPlan}

section
variable (hend : ∀ b, b < c → ConstructorsEnd b)
include hend

theorem construct_ends (hw : w.Ready 0) (hlt : b < c)
    (hsettles : Settles ⟨w, .construct (.cls b) k args, os⟩) :
    Concludes (fun calls => calls.construct (.cls b) k args) w := by
  refine .construct fun decl o w' hd hn => ?_
  obtain ⟨d, hclass, hctor⟩ := Schema.mem_constructors (Schema.constructorFor_eq_ok_iff.mp hd).1
  have hleads : w.Leads w' := (World.Works.newObject hw.sound.proper hw.sound.heap hn).leads
  have hclass : w'.schema.class? b = some d := by
    obtain ⟨_, _, -, -, hw', -⟩ := World.newObject_spec hn
    rw [hw']
    exact hclass
  exact hend b hlt (hw.leads hleads) hclass hctor (hsettles.starts (.construct hd hn))

theorem chain_ends (hw : w.Ready 0) (hlt : b < c)
    (hsettles : Settles ⟨w, .chain (.cls b) k o args, os⟩) :
    Concludes (fun calls => calls.chain (.cls b) k o args) w := by
  refine .chain fun decl hd => ?_
  obtain ⟨d, hclass, hctor⟩ := Schema.mem_constructors (Schema.constructorFor_eq_ok_iff.mp hd).1
  exact hend b hlt hw hclass hctor (hsettles.starts (.chain hd))

/-- A creation through a descriptor comes to an end, and gives a creation. -/
theorem guarded_ends (hw : w.Ready 0) {x : Descriptor} (hx : x.product = .cls b) (hlt : b < c)
    (hsettles : Settles ⟨w, .construct x.product k args, os⟩) :
    ∃ creation w', Returns (fun calls => x.guarded calls k args) w creation w' := by
  have hconstruct : Concludes (fun calls => calls.construct x.product k args) w := by
    rw [hx] at hsettles ⊢
    exact construct_ends hend hw hlt hsettles
  obtain ⟨r, w', hr, h⟩ := hconstruct.outcome
  obtain ⟨creation, hcreation⟩ : ∃ creation, Descriptor.creationOf r = some creation := by
    rcases r with (f | reason | _) | o
    · exact ⟨_, rfl⟩
    · exact ⟨_, rfl⟩
    · exact (hr rfl).elim
    · exact ⟨_, rfl⟩
  obtain ⟨w'', hconclude⟩ : ∃ w'', (x.conclude creation).run w' = (.ok creation, w'') :=
    ⟨_, x.conclude_run creation w'⟩
  refine ⟨creation, w'', ?_⟩
  simp only [Descriptor.guarded_eq]
  refine h.bind (.of_run fun _ => ?_)
  rw [hcreation]
  exact hconclude

/-- So does the building of a field. -/
theorem build_ends (hw : w.Ready 0) (hp : w.Provides c step)
    (hsettles : Settles ⟨w, .build o step cs, os⟩) :
    Concludes (fun calls => step.build calls cs) w := by
  obtain ⟨-, t, hf, -⟩ := hp
  simp only [BuildStep.build]
  cases hf with
  | @direct k operands hs hc hl =>
    obtain ⟨b, -, -, rfl, hlt, -⟩ := hc
    obtain ⟨values, hload, -⟩ := Operand.loadAll_eq_ok hl
    simp only [hs]
    refine .after hload ?_
    exact (construct_ends hend hw hlt (hsettles.starts (.direct hs hload))).bind
      fun _ _ _ => .of_returns (.of_run fun _ => rfl)
  | @withCarrier k source hs hc =>
    obtain ⟨b, -, -, rfl, hlt, -⟩ := hc
    obtain ⟨carrier, cs', carriers, htake⟩ := cs.take_spec source w
    have hleads : w.Leads _ := .of_take hw htake
    have hhold := hleads.trans (.hold (hw.leads hleads) carrier step.parameters)
    simp only [hs]
    refine .after htake (.bind (.withParameters ?_) fun _ _ _ => .of_returns (.of_run fun _ => rfl))
    exact construct_ends hend (hw.leads hhold) hlt (hsettles.starts (.withCarrier hs htake))
  | @lookup l source x k hs hx hr honly hk htakes hc hfits _ =>
    obtain ⟨b, -, -, rfl, hlt, -⟩ := hc
    simp only [hs]
    cases hresolve : w.resolve l with
    | error e =>
      have hfails : Run.resolve l w = (.error e, w) := by
        rw [resolve_run, hresolve]
      have hgone : ¬w.Answers l := fun hanswers => by
        obtain ⟨lookups, hok⟩ := hr hanswers
        cases hresolve.symm.trans hok
      obtain ⟨f, rfl⟩ := World.exists_fault_of_resolve hgone hresolve
      exact .of_run (by simp) fun _ => bind_of_error hfails
    | ok xw =>
      obtain ⟨x', w₁⟩ := xw
      obtain rfl := honly hresolve
      have hresolved : w.Leads w₁ := World.resolve_runs hw.sound hresolve
      obtain ⟨carrier, cs', carriers, htake⟩ := cs.take_spec source w₁
      have hleads : w.Leads _ := hresolved.trans (.of_take (hw.leads hresolved) htake)
      have hhold := hleads.trans (.hold (hw.leads hleads) carrier step.parameters)
      refine .after (resolve_eq_ok_iff.mpr hresolve) (.after htake (.bind (.withParameters ?_)
        fun _ _ _ => .of_returns (.of_run fun _ => rfl)))
      obtain ⟨creation, w₂, hcreate⟩ := guarded_ends hend (hw.leads hhold) hx hlt
        (hsettles.starts (.lookup hs hresolve htake hk))
      simp only [Descriptor.createWith, hk]
      exact .of_returns hcreate

/-- And so does each step of a plan that builds fields. -/
theorem step_ends (hw : w.Ready 0) (hp : w.Provides c step)
    (hsettles : Settles ⟨w, .build o step cs, os⟩) :
    Concludes (fun calls => step.run calls o cs) w := by
  simp only [BuildStep.run]
  refine (build_ends hend hw hp hsettles).bind fun r w' _ => ?_
  obtain ⟨v, cs'⟩ := r
  exact (Concludes.change _).bind fun _ _ _ => .of_returns (.of_run fun _ => rfl)

/-- The steps of a plan come to an end, from any of them on. -/
theorem steps_end (hw : w.Ready 0) {d : ClassDecl} {ctor : ConstructorDecl}
    (hd : w.schema.class? c = some d) (hctor : ctor ∈ d.constructors) (hp : ctor.body = .plan p)
    (before : List BuildStep) {after : List BuildStep} (hsteps : p.steps = before ++ after)
    (hbefore : Returns (fun calls => BuildStep.runAll calls o before (p.carriers args)) w cs w₁)
    (hsettles : Settles ⟨w, .body o args (.plan p), os⟩) :
    Concludes (fun calls => BuildStep.runAll calls o after cs) w₁ := by
  induction after generalizing before cs w₁ with
  | nil => exact .of_returns (.of_run fun _ => rfl)
  | cons step after ih =>
    have hl : w.Leads w₁ := .of_runAll hw hbefore
    have hw₁ := hw.leads hl
    have hclass := (hl.evolves hw).schema.classes hd
    have hprovides : w₁.Provides c step :=
      (hw₁.sound.supports hw₁.sorted (fun _ => rfl) hclass hctor hp).steps step
        (hsteps ▸ List.mem_append_right _ List.mem_cons_self)
    have hstep : Concludes (fun calls => step.run calls o cs) w₁ :=
      step_ends hend hw₁ hprovides (hsettles.starts (.build hsteps hbefore))
    refine hstep.bind fun cs' w₂ hreturns => ih (before ++ [step]) ?_ ?_
    · rw [hsteps, List.append_assoc]
      rfl
    · simp only [BuildStep.runAll_concat]
      exact hbefore.bind hreturns

omit hend in
/-- Telling values their properties comes to an end, from any value on. -/
theorem infos_end {w₀ : World} (is : List InfoStep) {js : List InfoStep} (hinfos : p.infos = is ++ js)
    (hsteps : Returns (fun calls => BuildStep.runAll calls o p.steps (p.carriers args)) w₀ cs w)
    (hbefore : Returns (fun calls => is.forM (InfoStep.run calls o)) w () w₁)
    (hsettles : Settles ⟨w₀, .body o args (.plan p), os⟩) :
    Concludes (fun calls => js.forM (InfoStep.run calls o)) w₁ := by
  induction js generalizing is w₁ with
  | nil => exact .of_returns (.of_run fun _ => rfl)
  | cons i js ih =>
    have hstart : Starts ⟨w₀, .body o args (.plan p), os⟩ ⟨w₁, .inform o i, o :: os⟩ :=
      .inform hinfos hsteps hbefore
    have hinfo : Concludes (fun calls => i.run calls o) w₁ := by
      simp only [InfoStep.run]
      refine (Concludes.check _).bind fun v w' hreturns => ?_
      obtain ⟨N, hcheck⟩ := hreturns
      obtain ⟨hfield, rfl⟩ := check_eq_ok_iff.mp (hcheck N (Nat.le_refl N))
      cases v with
      | object target =>
        refine .after (y := ask _) rfl ?_
        dsimp only
        cases hr : w'.schema.receiver? (w'.classOf target) with
        | none => exact .after (y := ask _) rfl (.fail _)
        | some body =>
          exact (hsettles.starts hstart).starts (.inform_receiver hfield hr) _ .refl rfl
      | null => exact .fail _
      | scalar s => exact .fail _
      | carrier k => exact .fail _
    refine hinfo.bind fun _ w₂ hreturns => ih (is ++ [i]) ?_ ?_
    · rw [hinfos, List.append_assoc]
      rfl
    · simp only [InfoStep.runAll_concat]
      exact hbefore.bind hreturns

end

/-- **Constructors come to an end** if the bodies of users do. -/
theorem constructors_end (c : ClassId) : ConstructorsEnd c := by
  induction c using Nat.strong_induction_on with
  | _ c ih =>
    intro w d ctor o args os hw hd hctor hsettles
    cases hbody : ctor.body with
    | routine r =>
      rw [hbody] at hsettles
      exact hsettles.starts .routine _ .refl rfl
    | chain base =>
      cases base with
      | none => exact .of_returns (.of_run fun _ => rfl)
      | some tk =>
        obtain ⟨t, k⟩ := tk
        rw [hbody] at hsettles
        obtain ⟨b, d', ctor', rfl, hlt, -⟩ := hw.chains hd hctor hbody
        exact chain_ends ih hw hlt (hsettles.starts .next)
    | wrapped kind =>
      rw [hbody] at hsettles
      exact hsettles _ .refl rfl
    | plan p =>
      rw [hbody] at hsettles
      show Concludes (fun calls => p.run calls o args) w
      simp only [ConstructionPlan.run]
      refine (steps_end ih hw hd hctor hbody [] rfl (.of_run fun _ => rfl)
        hsettles).bind fun cs w₁ hsteps => ?_
      refine (infos_end [] rfl hsteps (.of_run fun _ => rfl) hsettles).bind
        fun _ w₂ hinfos => ?_
      cases hp : p.base with
      | none => exact .of_returns (.of_run fun _ => rfl)
      | some b =>
        have hl₁ : w.Leads w₁ := .of_runAll hw hsteps
        have hl₂ : w.Leads w₂ := hl₁.trans (.of_infos (hw.leads hl₁) hinfos)
        obtain ⟨values, carriers, ha, -⟩ := b.arguments_spec cs w₂
        have hw₃ := (hw.leads hl₂).leads (.of_arguments (hw.leads hl₂) ha)
        have hclass := (hl₂.evolves hw).schema.classes hd
        obtain ⟨a, -, -, htarget, hlt, -⟩ := ((hw.leads hl₂).sound.supports (hw.leads hl₂).sorted
          (fun _ => rfl) hclass hctor hbody).base b hp
        simp only [BaseCall.run_eq]
        refine .after ha ?_
        have hstart := hsettles.starts (.base hp hsteps hinfos ha)
        rw [htarget] at hstart ⊢
        exact chain_ends ih hw₃ hlt hstart

end RecordForge
