import RecordForge.Run.Calls

/-!
# Runs, one step after the other

What a run gives from a world, and the world that it leaves. The lemmas here say this of the steps
from which runs are made, so that a run can be followed step by step.
-/

namespace RecordForge.Run

variable {α β : Type} {w w' w'' : World} {x : Run α} {f : α → Run β}

/-- Runs that end alike. -/
theorem end_inj {r r' : Except Halt α} :
    @Eq (Id (Except Halt α × World)) (r, w) (r', w') ↔ r = r' ∧ w = w' := Prod.ext_iff

/-! ## Sequences -/

theorem bind_run : (x >>= f) w = match x w with
    | (.ok a, w') => f a w'
    | (.error e, w') => (.error e, w') := by
  show ExceptT.bindCont f (x w).1 (x w).2 = _
  cases x w with
  | mk a w' => cases a <;> rfl

theorem bind_of_ok {a : α} (h : x w = (.ok a, w')) : (x >>= f) w = f a w' := by
  rw [bind_run, h]

theorem bind_of_error {e : Halt} (h : x w = (.error e, w')) :
    (x >>= f) w = (.error e, w') := by
  rw [bind_run, h]

/-- A sequence succeeds if each of its parts does. -/
theorem bind_eq_ok_iff {b : β} :
    (x >>= f) w = (.ok b, w'') ↔ ∃ a w', x w = (.ok a, w') ∧ f a w' = (.ok b, w'') := by
  rw [bind_run]
  rcases x w with ⟨e | a, w'⟩
  · simp [end_inj]
  · simp only [end_inj, Except.ok.injEq]
    constructor
    · exact fun h => ⟨a, w', ⟨rfl, rfl⟩, h⟩
    · rintro ⟨a', w₁, ⟨rfl, rfl⟩, h⟩
      exact h

theorem pure_run (a : α) : (pure a : Run α) w = (.ok a, w) := rfl

theorem pure_eq_ok_iff {a b : α} : (pure a : Run α) w = (.ok b, w') ↔ a = b ∧ w = w' := by
  rw [pure_run, end_inj, Except.ok.injEq]

theorem map_run {g : α → β} : (g <$> x) w = (x >>= fun a => pure (g a)) w := rfl

theorem halt_run (e : Halt) : (halt e : Run α) w = (.error e, w) := rfl

/-! ## Questions and changes -/

theorem get_bind {f : World → Run β} : ((MonadState.get : Run World) >>= f) w = f w w := rfl

theorem set_bind {f : PUnit → Run β} :
    ((set w' : Run PUnit) >>= f) w = f ⟨⟩ w' := rfl

theorem ask_bind {q : World → α} : (ask q >>= f) w = f (q w) w := rfl

theorem ofExcept_run {y : Except Fault α} : ofExcept y w = match y with
    | .ok a => (.ok a, w)
    | .error e => (.error (.fault e), w) := by
  cases y <;> rfl

theorem check_run {q : World → Except Fault α} : check q w = match q w with
    | .ok a => (.ok a, w)
    | .error e => (.error (.fault e), w) :=
  ofExcept_run (y := q w)

theorem check_of_ok {q : World → Except Fault α} {a : α} (h : q w = .ok a) :
    check q w = (.ok a, w) := by
  rw [check_run, h]

theorem check_eq_ok_iff {q : World → Except Fault α} {a : α} :
    check q w = (.ok a, w') ↔ q w = .ok a ∧ w' = w := by
  rw [check_run]
  cases q w <;> simp [end_inj, eq_comm]

theorem change_run {step : World → Except Fault World} : change step w = match step w with
    | .ok w' => (.ok (), w')
    | .error e => (.error (.fault e), w) := by
  show (check step >>= fun w' => (MonadState.set w' : Run Unit)) w = _
  rw [bind_run, check_run]
  cases step w <;> rfl

theorem change_of_ok {step : World → Except Fault World} (h : step w = .ok w') :
    change step w = (.ok (), w') := by
  rw [change_run, h]

theorem change_eq_ok_iff {step : World → Except Fault World} {u : Unit} :
    change step w = (.ok u, w') ↔ step w = .ok w' := by
  rw [change_run]
  cases step w <;> simp [end_inj]

theorem attempt_run {q : World → Except Halt α} : attempt q w = (q w, w) := by
  rw [attempt, get_bind]
  cases q w <;> rfl

theorem attempt_of_ok {q : World → Except Halt α} {a : α} (h : q w = .ok a) :
    attempt q w = (.ok a, w) := by
  rw [attempt_run, h]

theorem resolve_run {l : LookupId} : resolve l w = match w.resolve l with
    | .ok (d, w') => (.ok d, w')
    | .error e => (.error e, w) := by
  show (attempt (·.resolve l) >>= fun dw : Descriptor × World => do
    MonadState.set dw.2; return dw.1 : Run Descriptor) w = _
  rw [bind_run, attempt_run]
  cases w.resolve l <;> rfl

theorem resolve_eq_ok_iff {l : LookupId} {d : Descriptor} :
    resolve l w = (.ok d, w') ↔ w.resolve l = .ok (d, w') := by
  rw [resolve_run]
  rcases w.resolve l with e | ⟨d', w₁⟩
  · simp [end_inj]
  · simp [end_inj]

theorem outcome_run : outcome x w = (.ok (x w).1, (x w).2) := rfl

theorem ensuring_run {after : Run Unit} : ensuring x after w = match (x w).1 with
    | .ok a => (after >>= fun _ => pure a : Run α) (x w).2
    | .error e => (after >>= fun _ => halt e : Run α) (x w).2 := by
  show (match x w with
    | (.ok a, w) => (after >>= fun _ => pure a : Run α) w
    | (.error e, w) => (after >>= fun _ => halt e : Run α) w) = _
  rcases x w with ⟨e | a, w'⟩ <;> rfl

/-- A list for what follows a run; there is nothing if the run halts. -/
def following {γ : Type} (x : Run α) (f : α → World → List γ) (w : World) : List γ :=
  match x w with
  | (.ok a, w') => f a w'
  | (.error _, _) => []

theorem following_of_ok {γ : Type} {f : α → World → List γ} {a : α} (h : x w = (.ok a, w')) :
    following x f w = f a w' := by
  rw [following, h]

theorem mem_following_iff {γ : Type} {f : α → World → List γ} {b : γ} :
    b ∈ following x f w ↔ ∃ a w', x w = (.ok a, w') ∧ b ∈ f a w' := by
  rw [following]
  rcases x w with ⟨e | a, w'⟩
  · simp [end_inj]
  · constructor
    · exact fun h => ⟨a, w', rfl, h⟩
    · rintro ⟨a', w₁, he, h⟩
      obtain ⟨ha, rfl⟩ := end_inj.mp he
      obtain rfl := Except.ok.inj ha
      exact h

/-! ## Creating an object -/

/-- An object is created if its class is no abstract one and has the constructor, and the
constructor ends on the new object. -/
theorem constructStep_eq_ok_iff {c : Calls} {t : Ty} {k : Nat} {args : List Value} {o : ObjectId} :
    Calls.constructStep c t k args w = (.ok o, w'') ↔
      w.schema.isClass t = true ∧ w.schema.isAbstract t = false ∧
        ∃ decl w', w.schema.constructorFor t k args.length = .ok decl ∧
          w.newObject t = some (o, w') ∧ decl.body.run c o args w' = (.ok (), w'') := by
  rw [Calls.constructStep, get_bind]
  cases hclass : w.schema.isClass t with
  | false => simp [fail, halt_run, end_inj]
  | true =>
    cases habs : w.schema.isAbstract t with
    | true => simp [fail, halt_run, end_inj]
    | false =>
      simp only [Bool.not_true, Bool.or_false, Bool.false_eq_true, if_false, true_and]
      rw [bind_run, ofExcept_run]
      cases w.schema.constructorFor t k args.length with
      | error e => simp [end_inj]
      | ok decl =>
        cases hnew : w.newObject t with
        | none => simp [fail, halt_run, end_inj]
        | some ow =>
          obtain ⟨o', w'⟩ := ow
          dsimp only
          rw [set_bind]
          simp only [bind_eq_ok_iff, pure_eq_ok_iff, Except.ok.injEq, Option.some.injEq,
            Prod.mk.injEq]
          constructor
          · rintro ⟨u, w₁, hrun, rfl, rfl⟩
            exact ⟨decl, w', rfl, ⟨rfl, rfl⟩, hrun⟩
          · rintro ⟨decl', w₁, rfl, ⟨rfl, rfl⟩, hrun⟩
            exact ⟨(), w'', hrun, rfl, rfl⟩

/-! ## Building a field -/

/-- A step ends if its value is made and then stored. -/
theorem step_eq_ok_iff {c : Calls} {o : ObjectId} {step : BuildStep} {cs cs' : Carriers} :
    step.run c o cs w = (.ok cs', w'') ↔ ∃ v w', step.build c cs w = (.ok (v, cs'), w') ∧
      w'.setField o step.slot v = .ok w'' := by
  rw [BuildStep.run]
  constructor
  · intro h
    obtain ⟨⟨v, cs₁⟩, w₁, hbuild, h⟩ := bind_eq_ok_iff.mp h
    obtain ⟨_, w₂, hset, h⟩ := bind_eq_ok_iff.mp h
    obtain ⟨rfl, rfl⟩ := pure_eq_ok_iff.mp h
    exact ⟨v, w₁, hbuild, change_eq_ok_iff.mp hset⟩
  · rintro ⟨v, w₁, hbuild, hset⟩
    rw [bind_of_ok hbuild]
    exact (bind_of_ok (change_of_ok hset)).trans rfl

end RecordForge.Run
