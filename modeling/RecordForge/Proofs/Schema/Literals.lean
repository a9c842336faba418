import RecordForge.Proofs.Schema.Growth
import RecordForge.Schema.Dispatch

/-!
# The values in bodies

A body may contain values: the literals of a routine, and the construction parameters and the literal
arguments of a construction plan. `ClassDecl.All P` says that all values in the bodies of a class
satisfy `P`. Whatever a lookup of a body finds is a body of some class of the schema, so its values
satisfy `P` if those of all classes do (`Schema.Literals`).
-/

namespace RecordForge

variable {P Q R : Value → Prop}

/-! ## Routines -/

mutual

/-- All values in a term. -/
def Term.All (P : Value → Prop) : Term → Prop
  | .value v => P v
  | .propertyOf target _ => target.All P
  | .construct _ _ args => Term.AllList P args
  | .argument _ | .field _ | .property _ | .this | .className | .parameterCount _ | .parameter ..
  | .owner | .infoType | .infoName => True

/-- All values in terms. -/
def Term.AllList (P : Value → Prop) : List Term → Prop
  | [] => True
  | t :: ts => t.All P ∧ Term.AllList P ts

end

/-- All values in an action. -/
def Action.All (P : Value → Prop) : Action → Prop
  | .setField _ t | .setProperty _ t | .give t | .log t => t.All P
  | .setPropertyOf target _ t => target.All P ∧ t.All P
  | .chain _ _ args => Term.AllList P args
  | .setParameters _ values => ∀ ts ∈ values, Term.AllList P ts
  | .throw _ | .throwTimes .. | .panic _ => True

/-- All values in a routine. -/
def Routine.All (P : Value → Prop) (r : Routine) : Prop := ∀ a ∈ r, a.All P

mutual

theorem Term.All.both (h : ∀ v, P v → Q v → R v) {t : Term} (hp : t.All P) (hq : t.All Q) :
    t.All R := by
  cases t with
  | value v => exact h v hp hq
  | propertyOf target name => exact Term.All.both h (t := target) hp hq
  | construct type k args =>
    exact Term.AllList.both h (show Term.AllList P args from hp) (show Term.AllList Q args from hq)
  | argument => trivial
  | field => trivial
  | property => trivial
  | this => trivial
  | className => trivial
  | parameterCount => trivial
  | parameter => trivial
  | owner => trivial
  | infoType => trivial
  | infoName => trivial
termination_by sizeOf t

theorem Term.AllList.both (h : ∀ v, P v → Q v → R v) {ts : List Term} (hp : Term.AllList P ts)
    (hq : Term.AllList Q ts) : Term.AllList R ts := by
  cases ts with
  | nil => trivial
  | cons t ts => exact ⟨Term.All.both h hp.1 hq.1, Term.AllList.both h hp.2 hq.2⟩
termination_by sizeOf ts

end

theorem Action.All.both (h : ∀ v, P v → Q v → R v) {a : Action} (hp : a.All P) (hq : a.All Q) :
    a.All R := by
  cases a with
  | setField name t => exact Term.All.both h (t := t) hp hq
  | setProperty name t => exact Term.All.both h (t := t) hp hq
  | setPropertyOf target name t => exact ⟨hp.1.both h hq.1, hp.2.both h hq.2⟩
  | give t => exact Term.All.both h (t := t) hp hq
  | log t => exact Term.All.both h (t := t) hp hq
  | chain type k args =>
    exact Term.AllList.both h (show Term.AllList P args from hp) (show Term.AllList Q args from hq)
  | setParameters index values => exact fun ts hts => Term.AllList.both h (hp ts hts) (hq ts hts)
  | throw => trivial
  | throwTimes => trivial
  | panic => trivial

theorem Routine.All.both (h : ∀ v, P v → Q v → R v) {r : Routine} (hp : r.All P) (hq : r.All Q) :
    r.All R :=
  fun a ha => (hp a ha).both h (hq a ha)

theorem Term.All.imp (h : ∀ v, P v → Q v) {t : Term} (ht : t.All P) : t.All Q :=
  ht.both (fun v hv _ => h v hv) ht

theorem Term.AllList.imp (h : ∀ v, P v → Q v) {ts : List Term} (hts : Term.AllList P ts) :
    Term.AllList Q ts :=
  hts.both (fun v hv _ => h v hv) hts

theorem Action.All.imp (h : ∀ v, P v → Q v) {a : Action} (ha : a.All P) : a.All Q :=
  ha.both (fun v hv _ => h v hv) ha

theorem Routine.All.imp (h : ∀ v, P v → Q v) {r : Routine} (hr : r.All P) : r.All Q :=
  fun a ha => (hr a ha).imp h

/-! ## Bodies -/

/-- All values in the body of a getter. -/
def Getter.All (P : Value → Prop) : Getter → Prop
  | .routine body => body.All P
  | .slot _ | .isAbsent | .wrapped _ | .through .. => True

/-- All values in the body of a setter. -/
def Setter.All (P : Value → Prop) : Setter → Prop
  | .routine body => body.All P
  | .slot _ | .slotOf .. | .wrapped _ | .through .. => True

/-- All values in a step of a construction plan. -/
structure BuildStep.All (P : Value → Prop) (step : BuildStep) : Prop where
  parameters : ∀ vs ∈ step.parameters, ∀ v ∈ vs, P v
  literals : ∀ target k args, step.source = .direct target k args → ∀ v, .literal v ∈ args → P v

/-- All values in the body of a constructor. -/
def ConstructorBody.All (P : Value → Prop) : ConstructorBody → Prop
  | .routine body => body.All P
  | .plan p => ∀ step ∈ p.steps, step.All P
  | .chain _ | .wrapped _ => True

/-- All values in the initializer of a static. -/
def StaticBody.All (P : Value → Prop) : StaticBody → Prop
  | .routine body => body.All P
  | .blank => True

/-- All values in the bodies of a class. -/
structure ClassDecl.All (P : Value → Prop) (d : ClassDecl) : Prop where
  constructors : ∀ c ∈ d.constructors, c.body.All P
  getters : ∀ p ∈ d.properties, ∀ g, p.getter = some (.body g) → g.All P
  setters : ∀ p ∈ d.properties, ∀ g, p.setter = some (.body g) → g.All P
  receiver : ∀ body ∈ d.receiver, body.All P
  statics : ∀ f ∈ d.statics, f.body.All P

theorem Getter.All.both (h : ∀ v, P v → Q v → R v) {g : Getter} (hp : g.All P) (hq : g.All Q) :
    g.All R := by
  cases g with
  | routine body => exact Routine.All.both h (r := body) hp hq
  | slot => trivial
  | isAbsent => trivial
  | wrapped => trivial
  | through => trivial

theorem Setter.All.both (h : ∀ v, P v → Q v → R v) {g : Setter} (hp : g.All P) (hq : g.All Q) :
    g.All R := by
  cases g with
  | routine body => exact Routine.All.both h (r := body) hp hq
  | slot => trivial
  | slotOf => trivial
  | wrapped => trivial
  | through => trivial

theorem BuildStep.All.both (h : ∀ v, P v → Q v → R v) {step : BuildStep} (hp : step.All P)
    (hq : step.All Q) : step.All R :=
  ⟨fun vs hvs v hv => h v (hp.parameters vs hvs v hv) (hq.parameters vs hvs v hv),
    fun target k args he v hv => h v (hp.literals target k args he v hv)
      (hq.literals target k args he v hv)⟩

theorem BuildStep.All.imp (h : ∀ v, P v → Q v) {step : BuildStep} (hs : step.All P) : step.All Q :=
  hs.both (fun v hv _ => h v hv) hs

theorem ConstructorBody.All.both (h : ∀ v, P v → Q v → R v) {b : ConstructorBody} (hp : b.All P)
    (hq : b.All Q) : b.All R := by
  cases b with
  | routine body => exact Routine.All.both h (r := body) hp hq
  | plan p => exact fun step hs => (hp step hs).both h (hq step hs)
  | chain => trivial
  | wrapped => trivial

theorem StaticBody.All.both (h : ∀ v, P v → Q v → R v) {b : StaticBody} (hp : b.All P)
    (hq : b.All Q) : b.All R := by
  cases b with
  | routine body => exact Routine.All.both h (r := body) hp hq
  | blank => trivial

theorem ClassDecl.All.both (h : ∀ v, P v → Q v → R v) {d : ClassDecl} (hp : d.All P)
    (hq : d.All Q) : d.All R where
  constructors c hc := (hp.constructors c hc).both h (hq.constructors c hc)
  getters p hm g hg := (hp.getters p hm g hg).both h (hq.getters p hm g hg)
  setters p hm g hg := (hp.setters p hm g hg).both h (hq.setters p hm g hg)
  receiver body hb := (hp.receiver body hb).both h (hq.receiver body hb)
  statics f hf := (hp.statics f hf).both h (hq.statics f hf)

theorem ClassDecl.All.imp (h : ∀ v, P v → Q v) {d : ClassDecl} (hd : d.All P) : d.All Q :=
  hd.both (fun v hv _ => h v hv) hd

/-! ### Checking the values -/

section
variable [DecidablePred P]

mutual

/-- Whether all values in a term satisfy a predicate. -/
def Term.decideAll (P : Value → Prop) [DecidablePred P] : (t : Term) → Decidable (t.All P)
  | .value v => inferInstanceAs (Decidable (P v))
  | .propertyOf target _ => Term.decideAll P target
  | .construct _ _ args => Term.decideAllList P args
  | .argument _ | .field _ | .property _ | .this | .className | .parameterCount _ | .parameter ..
  | .owner | .infoType | .infoName => .isTrue trivial

/-- Whether all values in terms satisfy a predicate. -/
def Term.decideAllList (P : Value → Prop) [DecidablePred P] :
    (ts : List Term) → Decidable (Term.AllList P ts)
  | [] => .isTrue trivial
  | t :: ts => @instDecidableAnd _ _ (Term.decideAll P t) (Term.decideAllList P ts)

end

instance (t : Term) : Decidable (t.All P) := t.decideAll P

instance (ts : List Term) : Decidable (Term.AllList P ts) := Term.decideAllList P ts

instance (a : Action) : Decidable (a.All P) :=
  match a with
  | .setField _ t | .setProperty _ t | .give t | .log t => inferInstanceAs (Decidable (t.All P))
  | .setPropertyOf target _ t => inferInstanceAs (Decidable (target.All P ∧ t.All P))
  | .chain _ _ args => inferInstanceAs (Decidable (Term.AllList P args))
  | .setParameters _ values => inferInstanceAs (Decidable (∀ ts ∈ values, Term.AllList P ts))
  | .throw _ | .throwTimes .. | .panic _ => .isTrue trivial

instance (r : Routine) : Decidable (r.All P) := inferInstanceAs (Decidable (∀ a ∈ r, a.All P))

instance (g : Getter) : Decidable (g.All P) :=
  match g with
  | .routine body => inferInstanceAs (Decidable (Routine.All P body))
  | .slot _ | .isAbsent | .wrapped _ | .through .. => .isTrue trivial

instance (g : Setter) : Decidable (g.All P) :=
  match g with
  | .routine body => inferInstanceAs (Decidable (Routine.All P body))
  | .slot _ | .slotOf .. | .wrapped _ | .through .. => .isTrue trivial

instance (step : BuildStep) : Decidable (step.All P) :=
  let literal : Operand → Option Value
    | .literal v => some v
    | .parameter .. => none
  let args : Source → List Operand
    | .direct _ _ args => args
    | .lookup .. | .withCarrier .. => []
  decidable_of_iff ((∀ vs ∈ step.parameters, ∀ v ∈ vs, P v) ∧
      ∀ v ∈ (args step.source).filterMap literal, P v) <| by
    refine ⟨fun h => ⟨h.1, fun target k operands he v hv => h.2 v ?_⟩, fun h => ⟨h.parameters, ?_⟩⟩
    · rw [he]
      exact List.mem_filterMap.mpr ⟨.literal v, hv, rfl⟩
    · intro v hv
      obtain ⟨a, ha, he⟩ := List.mem_filterMap.mp hv
      cases a with
      | parameter => cases he
      | literal u =>
        obtain rfl := Option.some.inj he
        cases hs : step.source with
        | direct target k operands =>
          rw [hs] at ha
          exact h.literals target k operands hs u ha
        | lookup => rw [hs] at ha; cases ha
        | withCarrier => rw [hs] at ha; cases ha

instance (b : ConstructorBody) : Decidable (b.All P) :=
  match b with
  | .routine body => inferInstanceAs (Decidable (Routine.All P body))
  | .plan p => inferInstanceAs (Decidable (∀ step ∈ p.steps, step.All P))
  | .chain _ | .wrapped _ => .isTrue trivial

instance (b : StaticBody) : Decidable (b.All P) :=
  match b with
  | .routine body => inferInstanceAs (Decidable (Routine.All P body))
  | .blank => .isTrue trivial

/-- The bodies among accessors. -/
def Accessor.body? {α : Type} : Accessor α → Option α
  | .body b => some b
  | .abstract => none

theorem Accessor.bind_body? {α : Type} {a : Option (Accessor α)} {b : α} :
    a.bind Accessor.body? = some b ↔ a = some (.body b) := by
  rcases a with _ | _ | b' <;> simp [Accessor.body?]

instance (d : ClassDecl) : Decidable (d.All P) :=
  decidable_of_iff ((∀ c ∈ d.constructors, c.body.All P) ∧
      (∀ p ∈ d.properties, ∀ g ∈ p.getter.bind Accessor.body?, g.All P) ∧
      (∀ p ∈ d.properties, ∀ g ∈ p.setter.bind Accessor.body?, g.All P) ∧
      (∀ body ∈ d.receiver, Routine.All P body) ∧ ∀ f ∈ d.statics, f.body.All P) <| by
    simp only [Option.mem_def, Accessor.bind_body?]
    exact ⟨fun ⟨hc, hg, hs, hr, hf⟩ => ⟨hc, hg, hs, hr, hf⟩,
      fun h => ⟨h.constructors, h.getters, h.setters, h.receiver, h.statics⟩⟩

end

/-! ## Looking up bodies -/

namespace Schema

/-- All values in the bodies of the classes of a schema. -/
def Literals (P : Value → Prop) (s : Schema) : Prop :=
  ∀ t d, s.decl? t = some d → d.All P

variable {s : Schema} {t : Ty} {name missing : String}

theorem Literals.both (h : ∀ v, P v → Q v → R v) (hp : s.Literals P) (hq : s.Literals Q) :
    s.Literals R :=
  fun t d hd => (hp t d hd).both h (hq t d hd)

theorem Literals.imp (h : ∀ v, P v → Q v) (hs : s.Literals P) : s.Literals Q :=
  hs.both (fun v hv _ => h v hv) hs

/-- An accessor that is found is one of a property of a class. -/
theorem exists_of_accessor? {α : Type} {part : PropertyDecl → Option (Accessor α)}
    {a : Accessor α} (h : s.accessor? part t name = some a) :
    ∃ u d, s.decl? u = some d ∧ ∃ p ∈ d.properties, part p = some a := by
  obtain ⟨⟨u, d⟩, hmem, hfound⟩ := List.exists_of_findSome?_eq_some h
  obtain ⟨p, hp, ha⟩ := Option.bind_eq_some_iff.mp hfound
  exact ⟨u, d, decl?_of_mem_lineage hmem, p, List.mem_of_find?_eq_some hp, ha⟩

theorem bodyOf_eq_ok_iff {α : Type} {a : Option (Accessor α)} {b : α} :
    s.bodyOf t name missing a = .ok b ↔ a = some (.body b) := by
  rcases a with _ | _ | b' <;> simp [bodyOf]

theorem Literals.getterFor (hs : s.Literals P) {g : Getter} (h : s.getterFor t name = .ok g) :
    g.All P := by
  obtain ⟨u, d, hd, p, hp, hg⟩ := exists_of_accessor? (bodyOf_eq_ok_iff.mp h)
  exact (hs _ _ hd).getters p hp g hg

theorem Literals.setterFor (hs : s.Literals P) {g : Setter} (h : s.setterFor t name = .ok g) :
    g.All P := by
  obtain ⟨u, d, hd, p, hp, hg⟩ := exists_of_accessor? (bodyOf_eq_ok_iff.mp h)
  exact (hs _ _ hd).setters p hp g hg

theorem Literals.receiver? (hs : s.Literals P) {body : Routine} (h : s.receiver? t = some body) :
    body.All P := by
  obtain ⟨⟨u, d⟩, hmem, hfound⟩ := List.exists_of_findSome?_eq_some h
  exact (hs _ _ (decl?_of_mem_lineage hmem)).receiver body hfound

/-- A constructor that is found by number is one of the class, and it takes as many arguments as are
given. -/
theorem constructorFor_eq_ok_iff {k n : Nat} {c : ConstructorDecl} :
    s.constructorFor t k n = .ok c ↔ (s.constructors t)[k]? = some c ∧ c.params.length = n := by
  rw [constructorFor]
  cases (s.constructors t)[k]? with
  | none => simp
  | some c' =>
    by_cases hn : c'.params.length = n
    · simp only [hn, if_true, Except.ok.injEq, Option.some.injEq]
      exact ⟨fun h => ⟨h, h ▸ hn⟩, And.left⟩
    · simp only [hn, if_false, Option.some.injEq, reduceCtorEq, false_iff]
      rintro ⟨rfl, h⟩
      exact hn h

theorem mem_constructors {k : Nat} {c : ConstructorDecl} (h : (s.constructors t)[k]? = some c) :
    ∃ d, s.decl? t = some d ∧ c ∈ d.constructors := by
  rw [constructors] at h
  cases hd : s.decl? t with
  | none => simp [hd] at h
  | some d =>
    simp only [hd, Option.elim_some] at h
    exact ⟨d, rfl, List.mem_of_getElem? h⟩

theorem Literals.constructorFor (hs : s.Literals P) {k n : Nat} {c : ConstructorDecl}
    (h : s.constructorFor t k n = .ok c) : c.body.All P := by
  obtain ⟨d, hd, hc⟩ := mem_constructors (constructorFor_eq_ok_iff.mp h).1
  exact (hs _ _ hd).constructors c hc

end Schema

end RecordForge
