import RecordForge.Proofs.Run.Basic

/-!
# The depth of calls

The bound on nested calls does not affect results: a run that is not exhausted gives the same for
every greater bound (`Calls.nested_approximates`). So it makes sense to say that a run *returns*,
without naming a bound: `Run.Returns`.

The proof goes construct by construct. A construct whose calls approximate other calls approximates
the same construct with those.
-/

namespace RecordForge

open Run

namespace Run

variable {α β : Type}

/-- A run gives what another one gives, unless it is exhausted. -/
def Approximates (x y : Run α) : Prop := ∀ w, (x w).1 = .error .exhausted ∨ y w = x w

namespace Approximates

variable {x y : Run α} {f g : α → Run β}

theorem refl (x : Run α) : Approximates x x := fun _ => .inr rfl

theorem halt {y : Run α} : Approximates (halt .exhausted) y := fun _ => .inl rfl

theorem bind (h : Approximates x y) (hf : ∀ a, Approximates (f a) (g a)) :
    Approximates (x >>= f) (y >>= g) := by
  intro w
  rw [bind_run, bind_run]
  rcases h w with hx | hx
  · left
    rcases hxw : x w with ⟨e | a, w'⟩ <;> rw [hxw] at hx <;> cases hx
    rfl
  · rw [hx]
    rcases x w with ⟨e | a, w'⟩
    · exact .inr rfl
    · exact hf a w'

theorem map {f : α → β} (h : Approximates x y) : Approximates (f <$> x) (f <$> y) :=
  h.bind fun a => refl (pure (f a))

/-- What follows a run that approximates another. -/
theorem before {f : α → Run β} (h : Approximates x y) : Approximates (x >>= f) (y >>= f) :=
  h.bind fun a => refl (f a)

/-- Runs that begin alike. -/
theorem after (hf : ∀ a, Approximates (f a) (g a)) : Approximates (x >>= f) (x >>= g) :=
  (refl x).bind hf

theorem withParameters (carrier : CarrierId) (parameters : Option (List Value))
    (h : Approximates x y) :
    Approximates (withParameters carrier parameters x) (withParameters carrier parameters y) := by
  cases parameters with
  | none => exact h
  | some vs =>
    refine after fun _ w => ?_
    rw [ensuring_run, ensuring_run]
    rcases h w with hx | hx
    · left
      rw [hx]
      rfl
    · rw [hx]
      exact .inr rfl

end Approximates

end Run

/-- Calls that give what others give, unless they are exhausted. -/
structure Calls.Approximate (c c' : Calls) : Prop where
  read : ∀ o name, Approximates (c.read o name) (c'.read o name)
  write : ∀ o name v, Approximates (c.write o name v) (c'.write o name v)
  construct : ∀ t k args, Approximates (c.construct t k args) (c'.construct t k args)
  chain : ∀ t k o args, Approximates (c.chain t k o args) (c'.chain t k o args)

/-! ## Routines -/

mutual

theorem Term.eval_approximates {c c' : Calls} (h : c.Approximate c') {f : Frame} (t : Term) :
    Approximates (t.eval c f) (t.eval c' f) := by
  cases t with
  | property name => exact .after fun o => h.read o name
  | propertyOf target name =>
    exact (Term.eval_approximates h target).bind fun v => .after fun o => h.read o name
  | construct type k args =>
    have hlast : ∀ t, Approximates
        (do let vs ← Term.evalAll c f args; return .object (← c.construct t k vs) : Run Value)
        (do let vs ← Term.evalAll c' f args; return .object (← c'.construct t k vs)) := fun t =>
      (Term.evalAll_approximates h args).bind fun vs => (h.construct t k vs).before
    cases type with
    | some t =>
      rw [Term.eval, Term.eval]
      exact hlast t
    | none =>
      rw [Term.eval, Term.eval]
      exact .after hlast
  | _ => exact .refl _
termination_by sizeOf t

theorem Term.evalAll_approximates {c c' : Calls} (h : c.Approximate c') {f : Frame}
    (ts : List Term) : Approximates (Term.evalAll c f ts) (Term.evalAll c' f ts) := by
  cases ts with
  | nil => exact .refl _
  | cons t ts =>
    exact (Term.eval_approximates h t).bind fun v => (Term.evalAll_approximates h ts).before
termination_by sizeOf ts

end

section
variable {c c' : Calls} (h : c.Approximate c') {f : Frame}
include h

theorem Action.perform_approximates (a : Action) :
    Approximates (a.perform c f) (a.perform c' f) := by
  cases a with
  | setField name t => exact (t.eval_approximates h).before
  | setProperty name t =>
    exact (t.eval_approximates h).bind fun v => .after fun o => h.write o name v
  | setPropertyOf target name t =>
    exact (target.eval_approximates h).bind fun v => .after fun o =>
      (t.eval_approximates h).bind fun u => h.write o name u
  | log t => exact (t.eval_approximates h).before
  | chain type k args =>
    exact (Term.evalAll_approximates h args).bind fun vs => .after fun o => h.chain type k o vs
  | setParameters index values =>
    rw [Action.perform, Action.perform]
    cases f.carrier? index with
    | none => exact .refl _
    | some carrier =>
      cases values with
      | none => exact .refl _
      | some ts => exact (Term.evalAll_approximates h ts).before
  | _ => exact .refl _

theorem Routine.run_approximates (r : Routine) : Approximates (r.run c f) (r.run c' f) := by
  induction r with
  | nil => exact .refl _
  | cons a rest ih =>
    have hnext : Approximates (a.perform c f >>= fun _ => Routine.run c f rest)
        (a.perform c' f >>= fun _ => Routine.run c' f rest) :=
      (a.perform_approximates h).bind fun _ => ih
    cases a with
    | give t => exact t.eval_approximates h
    | _ => exact hnext

/-! ## Accessors -/

theorem ValueMember.read_approximates (m : ValueMember) (v : Value) :
    Approximates (m.read c v) (m.read c' v) := by
  refine .after fun holder => ?_
  cases m.place with
  | field slot => exact .refl _
  | property readable writable => exact h.read holder m.name

theorem ValueMember.write_approximates (m : ValueMember) (v u : Value) :
    Approximates (m.write c v u) (m.write c' v u) := by
  refine .after fun holder => ?_
  cases m.place with
  | field slot => exact .refl _
  | property readable writable => exact h.write holder m.name u

theorem Getter.run_approximates (g : Getter) (o : ObjectId) :
    Approximates (g.run c o) (g.run c' o) := by
  cases g with
  | routine body => exact body.run_approximates h
  | through i member type =>
    exact .after fun v => Approximates.before (member.read_approximates h v)
  | _ => exact .refl _

theorem Setter.run_approximates (g : Setter) (o : ObjectId) (v : Value) :
    Approximates (g.run c o v) (g.run c' o v) := by
  cases g with
  | routine body => exact (body.run_approximates h).map
  | through i member type =>
    exact .after fun u => .after fun value => member.write_approximates h value u
  | _ => exact .refl _

/-! ## Constructors -/

theorem Descriptor.guarded_approximates (x : Descriptor) (k : Nat) (args : List Value) :
    Approximates (x.guarded c k args) (x.guarded c' k args) := by
  intro w
  rw [guarded, guarded, bind_run, bind_run, outcome_run, outcome_run]
  rcases h.construct x.product k args w with hw | hw
  · left
    dsimp only
    rw [hw]
    rfl
  · rw [hw]
    exact .inr rfl

theorem Descriptor.create_approximates (x : Descriptor) :
    Approximates (x.create c) (x.create c') := by
  rw [create, create]
  cases x.defaultConstructor with
  | none => exact .refl _
  | some k => exact x.guarded_approximates h k []

theorem Descriptor.createWith_approximates (x : Descriptor) (carrier : CarrierId) :
    Approximates (x.createWith c carrier) (x.createWith c' carrier) := by
  rw [createWith, createWith]
  cases x.factoryConstructor with
  | none => exact .refl _
  | some k => exact x.guarded_approximates h k _

theorem BuildStep.run_approximates (step : BuildStep) (o : ObjectId) (cs : Carriers) :
    Approximates (step.run c o cs) (step.run c' o cs) := by
  refine Approximates.before ?_
  rw [build, build]
  cases step.source with
  | lookup l source =>
    exact .after fun x => .after fun r =>
      ((x.createWith_approximates h r.1).withParameters r.1 step.parameters).before
  | direct target k args => exact .after fun vs => (h.construct target k vs).before
  | withCarrier target k source =>
    exact .after fun r =>
      ((h.construct target k [.carrier r.1]).withParameters r.1 step.parameters).before

theorem BuildStep.runAll_approximates (steps : List BuildStep) (o : ObjectId) (cs : Carriers) :
    Approximates (runAll c o steps cs) (runAll c' o steps cs) := by
  induction steps generalizing cs with
  | nil => exact .refl _
  | cons step steps ih => exact (step.run_approximates h o cs).bind ih

theorem InfoStep.run_approximates (i : InfoStep) (o : ObjectId) :
    Approximates (i.run c o) (i.run c' o) := by
  refine .after fun v => ?_
  cases v with
  | object target =>
    refine .after fun body => ?_
    cases body with
    | none => exact .refl _
    | some body => exact (body.run_approximates h).map
  | _ => exact .refl _

theorem InfoStep.runAll_approximates (is : List InfoStep) (o : ObjectId) :
    Approximates (is.forM (run c o)) (is.forM (run c' o)) := by
  induction is with
  | nil => exact .refl _
  | cons i is ih => exact (i.run_approximates h o).bind fun _ => ih

theorem BaseCall.run_approximates (b : BaseCall) (o : ObjectId) (cs : Carriers) :
    Approximates (b.run c o cs) (b.run c' o cs) := by
  rw [run, run]
  split
  · exact .after fun r => h.chain b.target b.constructor o [.carrier r.1]
  · exact h.chain b.target b.constructor o []

theorem ConstructionPlan.run_approximates (p : ConstructionPlan) (o : ObjectId)
    (args : List Value) : Approximates (p.run c o args) (p.run c' o args) := by
  refine (BuildStep.runAll_approximates h p.steps o _).bind fun cs => ?_
  refine (InfoStep.runAll_approximates h p.infos o).bind fun _ => ?_
  cases p.base with
  | none => exact .refl _
  | some b => exact b.run_approximates h o cs

theorem ConstructorBody.run_approximates (b : ConstructorBody) (o : ObjectId) (args : List Value) :
    Approximates (b.run c o args) (b.run c' o args) := by
  cases b with
  | routine body => exact (body.run_approximates h).map
  | chain base =>
    cases base with
    | none => exact .refl _
    | some tk => exact h.chain tk.1 tk.2 o []
  | wrapped kind => exact .refl _
  | plan p => exact p.run_approximates h o args

end

/-! ## Calls -/

namespace Calls

section
variable {c c' : Calls} (h : c.Approximate c')
include h

theorem readStep_approximates (o : ObjectId) (name : String) :
    Approximates (readStep c o name) (readStep c' o name) :=
  .after fun getter => getter.run_approximates h o

theorem writeStep_approximates (o : ObjectId) (name : String) (v : Value) :
    Approximates (writeStep c o name v) (writeStep c' o name v) :=
  .after fun setter => setter.run_approximates h o v

theorem constructStep_approximates (t : Ty) (k : Nat) (args : List Value) :
    Approximates (constructStep c t k args) (constructStep c' t k args) := by
  refine .after fun w => ?_
  split
  · exact .refl _
  · refine .after fun decl => ?_
    cases w.newObject t with
    | none => exact .refl _
    | some ow => exact .after fun _ => (decl.body.run_approximates h ow.1 args).before

theorem chainStep_approximates (t : Ty) (k : Nat) (o : ObjectId) (args : List Value) :
    Approximates (chainStep c t k o args) (chainStep c' t k o args) :=
  .after fun decl => decl.body.run_approximates h o args

end

theorem nested_succ (n : Nat) : (nested n).Approximate (nested (n + 1)) := by
  induction n with
  | zero => exact ⟨fun _ _ => .halt, fun _ _ _ => .halt, fun _ _ _ => .halt, fun _ _ _ _ => .halt⟩
  | succ n ih =>
    exact ⟨readStep_approximates ih, writeStep_approximates ih, constructStep_approximates ih,
      chainStep_approximates ih⟩

/-- A computation that makes calls gives what it gives with other calls, unless it is exhausted. -/
def Uniform {α : Type} (x : Calls → Run α) : Prop :=
  ∀ c c', Calls.Approximate c c' → Approximates (x c) (x c')

/-- **A result that is reached within some depth is the same for every greater one.** -/
theorem nested_approximates {α : Type} {x : Calls → Run α} (hx : Uniform x) {n m : Nat}
    (hle : n ≤ m) {w : World} (h : (x (nested n) w).1 ≠ .error .exhausted) :
    x (nested m) w = x (nested n) w := by
  induction hle with
  | refl => rfl
  | @step m _ ih =>
    rw [← ih]
    refine (hx _ _ (nested_succ m) w).resolve_left ?_
    rw [ih]
    exact h

end Calls

/-! ## Returning -/

namespace Run

variable {α β : Type} {x : Calls → Run α} {f : Calls → α → Run β} {w w' w'' : World} {a a' : α}
variable {b : β}

/-- From a world, a computation that makes calls ends with a result and leaves a world, for all
bounds on the depth from some bound on. -/
def Returns (x : Calls → Run α) (w : World) (a : α) (w' : World) : Prop :=
  ∃ N, ∀ n, N ≤ n → x (Calls.nested n) w = (.ok a, w')

/-- One bound is enough. -/
theorem returns_iff (hx : Calls.Uniform x) :
    Returns x w a w' ↔ ∃ n, x (Calls.nested n) w = (.ok a, w') := by
  constructor
  · rintro ⟨N, h⟩
    exact ⟨N, h N (Nat.le_refl N)⟩
  · rintro ⟨N, h⟩
    refine ⟨N, fun n hn => ?_⟩
    rw [Calls.nested_approximates hx hn (by rw [h]; exact fun he => nomatch he), h]

namespace Returns

theorem of_run (h : ∀ c, x c w = (.ok a, w')) : Returns x w a w' := ⟨0, fun _ _ => h _⟩

theorem of_depth (hx : Calls.Uniform x) {n : Nat} (h : x (Calls.nested n) w = (.ok a, w')) :
    Returns x w a w' := (returns_iff hx).mpr ⟨n, h⟩

/-- The steps of a plan return if they end within some depth. -/
theorem of_steps {o : ObjectId} {steps : List BuildStep} {cs cs' : Carriers} {n : Nat}
    (h : BuildStep.runAll (Calls.nested n) o steps cs w = (.ok cs', w')) :
    Returns (fun c => BuildStep.runAll c o steps cs) w cs' w' :=
  of_depth (fun _ _ ha => BuildStep.runAll_approximates ha _ _ _) h

theorem of_step {o : ObjectId} {step : BuildStep} {cs cs' : Carriers} {n : Nat}
    (h : step.run (Calls.nested n) o cs w = (.ok cs', w')) :
    Returns (fun c => step.run c o cs) w cs' w' :=
  of_depth (fun _ _ ha => step.run_approximates ha _ _) h

/-- So does telling values their properties. -/
theorem of_infos {o : ObjectId} {is : List InfoStep} {n : Nat}
    (h : is.forM (InfoStep.run (Calls.nested n) o) w = (.ok (), w')) :
    Returns (fun c => is.forM (InfoStep.run c o)) w () w' :=
  of_depth (fun _ _ ha => InfoStep.runAll_approximates ha _ _) h

theorem of_info {o : ObjectId} {i : InfoStep} {n : Nat}
    (h : i.run (Calls.nested n) o w = (.ok (), w')) :
    Returns (fun c => i.run c o) w () w' :=
  of_depth (fun _ _ ha => i.run_approximates ha _) h

/-- There is one result. -/
theorem unique (h : Returns x w a w') (h' : Returns x w a' w'') : a = a' ∧ w' = w'' := by
  obtain ⟨N, h⟩ := h
  obtain ⟨N', h'⟩ := h'
  have hboth := (h _ (Nat.le_max_left N N')).symm.trans (h' _ (Nat.le_max_right N N'))
  rw [end_inj, Except.ok.injEq] at hboth
  exact hboth

theorem bind (h : Returns x w a w') (hf : Returns (fun c => f c a) w' b w'') :
    Returns (fun c => x c >>= f c) w b w'' := by
  obtain ⟨N, h⟩ := h
  obtain ⟨N', hf⟩ := hf
  refine ⟨max N N', fun n hn => ?_⟩
  have hfirst := h n (Nat.le_trans (Nat.le_max_left N N') hn)
  exact (bind_of_ok hfirst).trans (hf n (Nat.le_trans (Nat.le_max_right N N') hn))

theorem map {g : α → β} (h : Returns x w a w') : Returns (fun c => g <$> x c) w (g a) w' :=
  h.bind (f := fun _ a => pure (g a)) (.of_run fun _ => rfl)

/-- An object is created if its constructor returns. -/
theorem construct {t : Ty} {k : Nat} {args : List Value} {decl : ConstructorDecl} {o : ObjectId}
    (hclass : w.schema.isClass t = true) (hconcrete : w.schema.isAbstract t = false)
    (hd : w.schema.constructorFor t k args.length = .ok decl) (hn : w.newObject t = some (o, w'))
    (h : Returns (fun c => decl.body.run c o args) w' () w'') :
    Returns (fun c => c.construct t k args) w o w'' := by
  obtain ⟨N, h⟩ := h
  refine ⟨N + 1, fun n hn' => ?_⟩
  obtain ⟨n, rfl⟩ : ∃ m, n = m + 1 := ⟨n - 1, by omega⟩
  exact constructStep_eq_ok_iff.mpr
    ⟨hclass, hconcrete, decl, w', hd, hn, h n (by omega)⟩

theorem chain {t : Ty} {k : Nat} {args : List Value} {decl : ConstructorDecl} {o : ObjectId}
    (hd : w.schema.constructorFor t k args.length = .ok decl)
    (h : Returns (fun c => decl.body.run c o args) w () w'') :
    Returns (fun c => c.chain t k o args) w () w'' := by
  obtain ⟨N, h⟩ := h
  refine ⟨N + 1, fun n hn' => ?_⟩
  obtain ⟨n, rfl⟩ : ∃ m, n = m + 1 := ⟨n - 1, by omega⟩
  show Calls.chainStep (Calls.nested n) t k o args w = _
  rw [Calls.chainStep, bind_of_ok (check_of_ok hd)]
  exact h n (by omega)

end Returns

end Run

end RecordForge
