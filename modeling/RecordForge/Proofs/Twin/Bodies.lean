import RecordForge.Proofs.Twin.Routines

/-!
# All bodies in twin worlds

The built-in bodies: the creation of instances through descriptors, construction plans, and the
constructors. At the end the knot is tied: calls that may nest to some depth do in twin worlds alike,
whatever the depth (`Twins.nested_alike`).

That plans do relies on what their lookups find: it is the same in both worlds if it is published
(`World.Furnished`).
-/

namespace RecordForge

open Run

/-- The constructor of the abstract class comes last, if there is one. -/
theorem ConstructionPlan.run_eq (c : Calls) (o : ObjectId) (args : List Value) (p : ConstructionPlan) :
    p.run c o args = BuildStep.runAll c o p.steps (p.carriers args) >>= fun cs =>
      p.infos.forM (InfoStep.run c o) >>= fun _ => p.base.elim (pure ()) fun b => b.run c o cs := by
  rw [run]
  cases p.base <;> rfl

namespace Twins

variable {w₀ : World} {T T' : Twins w₀} {c : Calls} {s : Trails} {a b : CarrierId} {o : ObjectId}
variable {vs us : List Value} {cs cs' : Carriers}

/-! ## Creations -/

theorem event_failure (x : Descriptor) (name : String) (e : Fault) (β : Pairing) :
    (x.failure name e).Matches β (x.failure name e) := by
  rw [Descriptor.failure]
  cases x.listener with
  | observer => exact .failed name e
  | log => exact .warned _

/-- Telling a listener of a failed creation. -/
theorem Follows.tell (T : Twins w₀) (x : Descriptor) (e : Fault) :
    T.Follows True (.silent (x.tell e)) (.silent (x.tell e)) Same := by
  refine silent (ask (Q := Same) (by rw [T.schema_eq])) fun T₁ name name' _ hname => ?_
  subst hname
  exact silent (observe T₁ (event_failure x name e)) fun _ _ _ _ _ => pure rfl

/-- What comes of a creation, if the constructors that are run end alike. -/
theorem Follows.guarded {x : Descriptor} {k k' : Nat} {p q : World → List Performance}
    (h : T.Follows True ⟨c.construct x.product k vs, p⟩ ⟨c.construct x.product k' us, q⟩ Same) :
    T.Follows True ⟨x.guarded c k vs, p⟩ ⟨x.guarded c k' us, q⟩ Same := by
  refine before (outcome h) fun T₁ r r' _ hr => ?_
  cases hr with
  | ok ho =>
    subst ho
    exact pure rfl
  | error e =>
    cases e with
    | fault e => exact tell T₁ x e
    | panic reason => exact tell T₁ x _
    | exhausted => exact halt _

/-- Creations with carriers that stand for each other. -/
theorem createWith (hc : Alike w₀ c s) (x : Descriptor) (hab : T.paired a b) :
    T.Follows True ⟨x.createWith c a, x.trail s (some a)⟩ ⟨x.createWith c b, x.trail s (some b)⟩
      Same := by
  rw [Descriptor.createWith, Descriptor.trail, Descriptor.createWith, Descriptor.trail]
  cases x.factoryConstructor with
  | none => exact .pure rfl
  | some k =>
    refine .guarded (hc.construct T x.product k ?_)
    split
    · exact .cons (.carrier hab) .nil
    · exact .nil

/-! ## Carriers and operands -/

/-- The carriers of two constructions stand for each other. -/
structure Carry (T : Twins w₀) (cs cs' : Carriers) : Prop where
  argument : Option.Rel T.paired cs.argument cs'.argument
  transient : Option.Rel T.paired cs.transient cs'.transient

theorem Leads.rel (hl : T.Leads T') {x y : Option CarrierId} (h : Option.Rel T.paired x y) :
    Option.Rel T'.paired x y := by
  cases h with
  | none => exact .none
  | some h => exact .some (hl.paired _ _ h)

theorem Carry.mono (h : T.Carry cs cs') (hl : T.Leads T') : T'.Carry cs cs' :=
  ⟨hl.rel h.argument, hl.rel h.transient⟩

/-- The carriers with which plans begin. -/
theorem Carry.begin (p : ConstructionPlan) (hvs : Value.AllMatch T.paired vs us) :
    T.Carry (p.carriers vs) (p.carriers us) := by
  refine ⟨?_, .none⟩
  simp only [ConstructionPlan.carriers]
  split
  · cases hvs with
    | nil => exact .none
    | cons hv _ =>
      cases hv with
      | carrier h => exact .some h
      | null => exact .none
      | scalar s => exact .none
      | object o => exact .none
  · exact .none

namespace Follows

theorem take (hcs : T.Carry cs cs') (source : CarrierSource) :
    T.Follows True (.silent (cs.take source)) (.silent (cs'.take source)) fun T' r r' =>
      T'.paired r.1 r'.1 ∧ T'.Carry r.2 r'.2 := by
  obtain ⟨x, y⟩ := cs
  obtain ⟨x', y'⟩ := cs'
  obtain ⟨hargument, htransient⟩ := hcs
  dsimp only at hargument htransient
  cases source with
  | argument =>
    cases hargument with
    | some h => exact pure ⟨h, .some h, htransient⟩
    | none =>
      exact silent (newCarrier T) fun T₁ k k' hl h =>
        pure ⟨h, .some h, hl.rel htransient⟩
  | transient =>
    cases htransient with
    | some h => exact pure ⟨h, hargument, .some h⟩
    | none =>
      exact silent (newCarrier T) fun T₁ k k' hl h =>
        pure ⟨h, hl.rel hargument, .some h⟩

theorem load {parameters : Option (List Value)} {a : Operand}
    (hp : ∀ vs ∈ parameters, ∀ v ∈ vs, T.Constant v) (ha : ∀ v, a = .literal v → T.Constant v) :
    T.Follows True (.silent (a.load parameters)) (.silent (a.load parameters)) Match := by
  cases a with
  | literal v => exact pure (ha v rfl)
  | parameter index type =>
    rw [Operand.load]
    cases hi : (parameters.getD [])[index]? with
    | none => exact fail _
    | some v =>
      cases parameters with
      | none => simp at hi
      | some vs => exact cast type (hp vs rfl v (List.mem_of_getElem? hi))

theorem loadAll {parameters : Option (List Value)} {as : List Operand}
    (hp : ∀ vs ∈ parameters, ∀ v ∈ vs, T.Constant v) (has : ∀ v, .literal v ∈ as → T.Constant v) :
    T.Follows True (.silent (Operand.loadAll parameters as))
      (.silent (Operand.loadAll parameters as)) fun T' => Value.AllMatch T'.paired := by
  induction as generalizing T with
  | nil => exact pure .nil
  | cons a as ih =>
    refine silent (load hp fun v h => has v (h ▸ List.mem_cons_self)) fun T₁ v u hl hv => ?_
    refine silent (ih (fun vs hvs v hv => Constant.mono hl (hp vs hvs v hv))
      fun v hv => Constant.mono hl (has v (List.mem_cons_of_mem _ hv))) fun T₂ vs us hl₂ hvs => ?_
    exact pure (.cons (hv.mono hl₂.paired) hvs)

/-- What a step receives from creations that have come to the same. -/
theorem received (T : Twins w₀) (step : BuildStep) (creation : Creation) :
    T.Follows True (.silent (Run.ask (step.received · creation)))
      (.silent (Run.ask (step.received · creation))) Match := by
  have hinstance : (T.right.isInstance · step.fieldType) = (T.left.isInstance · step.fieldType) :=
    funext fun o => T.isInstance_eq o _
  refine ask ?_
  rw [BuildStep.received, BuildStep.received, hinstance]
  cases creation.object?.filter (T.left.isInstance · step.fieldType) with
  | none => exact .null
  | some o => exact .object o

end Follows

namespace Follows

variable {strict : Prop} {R : Twins w₀ → Carriers → Carriers → Prop}

/-- A field is built if its value is made. -/
theorem step {step step' : BuildStep} (hslot : step'.slot = step.slot)
    (h : T.Follows strict ⟨step.build c cs, step.trail s cs⟩ ⟨step'.build c cs', step'.trail s cs'⟩
      fun T' r r' => T'.Match r.1 r'.1 ∧ R T' r.2 r'.2)
    (hR : ∀ T₁ T₂ cs cs', T₁.Leads T₂ → R T₁ cs cs' → R T₂ cs cs') :
    T.Follows strict ⟨step.run c o cs, step.trail s cs⟩ ⟨step'.run c o cs', step'.trail s cs'⟩ R := by
  refine before h fun T₁ r r' _ hr => ?_
  rw [hslot]
  exact silent (weaken (setField T₁ o step.slot hr.1)) fun T₂ _ _ hl _ => pure (hR _ _ _ _ hl hr.2)

/-- Fields are built, one after the other. -/
theorem buildAll {steps steps' : List BuildStep}
    (h : List.Forall₂ (fun step step' => ∀ (T' : Twins w₀) cs cs', T.Leads T' → R T' cs cs' →
      T'.Follows strict ⟨step.run c o cs, step.trail s cs⟩ ⟨step'.run c o cs', step'.trail s cs'⟩ R)
      steps steps') (hR : R T cs cs') :
    T.Follows strict ⟨BuildStep.runAll c o steps cs, BuildStep.trailAll c s o steps cs⟩
      ⟨BuildStep.runAll c o steps' cs', BuildStep.trailAll c s o steps' cs'⟩ R := by
  suffices hall : ∀ T', T.Leads T' → ∀ cs cs', R T' cs cs' → T'.Follows strict
      ⟨BuildStep.runAll c o steps cs, BuildStep.trailAll c s o steps cs⟩
      ⟨BuildStep.runAll c o steps' cs', BuildStep.trailAll c s o steps' cs'⟩ R from
    hall T (.refl T) cs cs' hR
  induction h with
  | nil => exact fun T' _ cs cs' hcs => pure hcs
  | cons hstep _ ih =>
    exact fun T' hl cs cs' hcs => bind (hstep T' cs cs' hl hcs) fun T'' cs cs' hl' hcs =>
      ih T'' (hl.trans hl') cs cs' hcs

end Follows

/-- The parameters of a step, if its values mean the same in both worlds. -/
theorem allMatch_parameters {step : BuildStep} (hstep : step.All T.Constant) (hl : T.Leads T') :
    ∀ vs ∈ step.parameters, Value.AllMatch T'.paired vs vs := fun vs hvs =>
  List.forall₂_same.mpr fun v hv => Constant.mono hl (hstep.parameters vs hvs v hv)

/-! ## Construction plans -/

section
variable (hc : Alike w₀ c s)
include hc

/-- Making the value of a field. -/
theorem build (hw : w₀.Furnished) {step : BuildStep} (hserves : w₀.Serves step)
    (hstep : step.All T.Constant) (hcs : T.Carry cs cs') :
    T.Follows True ⟨step.build c cs, step.trail s cs⟩ ⟨step.build c cs', step.trail s cs'⟩
      fun T' r r' => T'.Match r.1 r'.1 ∧ T'.Carry r.2 r'.2 := by
  rw [BuildStep.build, BuildStep.trail, BuildStep.build, BuildStep.trail]
  cases hsource : step.source with
  | lookup l source =>
    obtain ⟨lookup, registry, e, x, hp⟩ := hserves l source hsource
    refine .after (.resolve T hw hp) fun T₁ x₁ x₂ hl₁ hx => ?_
    obtain ⟨rfl, rfl⟩ := hx
    refine .after (.take (hcs.mono hl₁) source) fun T₂ r r' hl₂ hr => ?_
    have hcreate : T₂.Follows True
        ⟨withParameters r.1 step.parameters (x.createWith c r.1),
          fun w => x.trail s (some r.1) (w.hold r.1 step.parameters)⟩
        ⟨withParameters r'.1 step.parameters (x.createWith c r'.1),
          fun w => x.trail s (some r'.1) (w.hold r'.1 step.parameters)⟩ Same :=
      .withParameters (.inl hr.1) (allMatch_parameters hstep (hl₁.trans hl₂))
        (fun T₃ hl₃ => createWith hc x (hl₃.paired _ _ hr.1)) fun _ _ _ _ _ => id
    refine .before hcreate fun T₃ creation creation' hl₃ hcreation => ?_
    subst hcreation
    exact .silent (.received T₃ step creation) fun T₄ v u hl₄ hv =>
      .pure ⟨hv, hr.2.mono (hl₃.trans hl₄)⟩
  | direct target k args =>
    refine .after (.loadAll hstep.parameters (hstep.literals target k args hsource))
      fun T₁ vs us hl₁ hvs => .before (hc.construct T₁ target k hvs) fun T₂ o o' hl₂ ho => ?_
    subst ho
    exact .pure ⟨.object o, hcs.mono (hl₁.trans hl₂)⟩
  | withCarrier target k source =>
    refine .after (.take hcs source) fun T₁ r r' hl₁ hr => ?_
    have hconstruct : T₁.Follows True
        ⟨withParameters r.1 step.parameters (c.construct target k [.carrier r.1]),
          fun w => s.construct target k [.carrier r.1] (w.hold r.1 step.parameters)⟩
        ⟨withParameters r'.1 step.parameters (c.construct target k [.carrier r'.1]),
          fun w => s.construct target k [.carrier r'.1] (w.hold r'.1 step.parameters)⟩ Same :=
      .withParameters (.inl hr.1) (allMatch_parameters hstep hl₁)
        (fun T₂ hl₂ => hc.construct T₂ target k (.cons (.carrier (hl₂.paired _ _ hr.1)) .nil))
        fun _ _ _ _ _ => id
    refine .before hconstruct fun T₂ o o' hl₂ ho => ?_
    subst ho
    exact .pure ⟨.object o, hr.2.mono hl₂⟩

/-- Building fields, in order. -/
theorem buildAll (hw : w₀.Furnished) {steps : List BuildStep} (hserves : ∀ step ∈ steps, w₀.Serves step)
    (hsteps : ∀ step ∈ steps, step.All T.Constant) (hcs : T.Carry cs cs') :
    T.Follows True ⟨BuildStep.runAll c o steps cs, BuildStep.trailAll c s o steps cs⟩
      ⟨BuildStep.runAll c o steps cs', BuildStep.trailAll c s o steps cs'⟩ Carry := by
  refine .buildAll (List.forall₂_same.mpr fun step hm T' cs cs' hl hcs => ?_) hcs
  exact .step rfl (build hc hw (hserves step hm) ((hsteps step hm).imp fun _ => .mono hl) hcs)
    fun _ _ _ _ hl (h : Carry _ _ _) => h.mono hl

/-- Telling the value of a field its property. -/
theorem inform (T : Twins w₀) (i : InfoStep) :
    T.Follows True ⟨i.run c o, i.trail c s o⟩ ⟨i.run c o, i.trail c s o⟩ Same := by
  refine .after (.field T o i.slot) fun T₁ v u _ hv => ?_
  cases hv with
  | object target =>
    have hreceiver : T₁.right.schema.receiver? (T₁.right.classOf target) =
        T₁.left.schema.receiver? (T₁.left.classOf target) := by rw [T₁.schema_eq, T₁.classOf_eq]
    have hask : T₁.Follows True (.silent (ask fun w => w.schema.receiver? (w.classOf target)))
        (.silent (ask fun w => w.schema.receiver? (w.classOf target))) fun T₂ r r' => r = r' ∧
          ∀ body ∈ r, body.All T₂.Constant :=
      .ask ⟨hreceiver.symm, fun body hbody =>
        (T₁.leftStays.schema ▸ T₁.literals).receiver? hbody⟩
    refine .after hask fun T₂ r r' _ hr => ?_
    obtain ⟨rfl, hr⟩ := hr
    cases r with
    | some body => exact .discard (routine hc (.receiver target _) body (hr body rfl))
    | none =>
      refine .silent (.ask (Q := Same) (T₂.className_eq target).symm) fun _ name name' _ hname => ?_
      subst hname
      exact .fail _
  | null => exact .fail _
  | scalar s => exact .fail _
  | carrier h => exact .fail _

theorem informAll (T : Twins w₀) (is : List InfoStep) :
    T.Follows True ⟨is.forM (InfoStep.run c o), InfoStep.trailAll c s o is⟩
      ⟨is.forM (InfoStep.run c o), InfoStep.trailAll c s o is⟩ Same := by
  induction is generalizing T with
  | nil => exact .pure rfl
  | cons i is ih => exact .bind (inform hc T i) fun T₁ _ _ _ _ => ih T₁

/-- Running the constructor of the abstract class. -/
theorem base (b : BaseCall) (hcs : T.Carry cs cs') :
    T.Follows True ⟨b.run c o cs, b.trail s o cs⟩ ⟨b.run c o cs', b.trail s o cs'⟩ Same := by
  have harguments : T.Follows True (.silent (b.arguments cs)) (.silent (b.arguments cs'))
      fun T' => Value.AllMatch T'.paired := by
    rw [BaseCall.arguments, BaseCall.arguments]
    split
    · exact .silent (.take hcs .argument) fun T₁ r r' _ hr => .pure (.cons (.carrier hr.1) .nil)
    · exact .pure .nil
  rw [b.run_eq, b.run_eq]
  exact .after harguments fun T₁ vs us _ hvs => hc.chain T₁ b.target b.constructor o hvs

/-- Plans that build fields alike and tell the same values their properties. -/
theorem plan_of {strict : Prop} {p p' : ConstructionPlan} {R : Twins w₀ → Carriers → Carriers → Prop}
    (hinfos : p'.infos = p.infos)
    (hsteps : T.Follows strict
      ⟨BuildStep.runAll c o p.steps (p.carriers vs), BuildStep.trailAll c s o p.steps (p.carriers vs)⟩
      ⟨BuildStep.runAll c o p'.steps (p'.carriers us),
        BuildStep.trailAll c s o p'.steps (p'.carriers us)⟩ R)
    (hbase : ∀ T₁ T₂ cs cs', R T₁ cs cs' → T₁.Leads T₂ → T₂.Follows True
      ⟨p.base.elim (pure ()) fun b => b.run c o cs, p.base.elim (fun _ => []) fun b => b.trail s o cs⟩
      ⟨p'.base.elim (pure ()) fun b => b.run c o cs',
        p'.base.elim (fun _ => []) fun b => b.trail s o cs'⟩ Same) :
    T.Follows strict ⟨p.run c o vs, p.trail c s o vs⟩ ⟨p'.run c o us, p'.trail c s o us⟩ Same := by
  rw [p.run_eq, p'.run_eq]
  unfold ConstructionPlan.trail
  rw [hinfos]
  refine .bind hsteps fun T₁ cs cs' _ hcs => ?_
  exact .bind (.weaken (informAll hc T₁ p.infos)) fun T₂ _ _ hl _ =>
    .weaken (hbase T₁ T₂ cs cs' hcs hl)

/-- Running a plan. -/
theorem plan (hw : w₀.Furnished) {p : ConstructionPlan} (hserves : ∀ step ∈ p.steps, w₀.Serves step)
    (hp : ∀ step ∈ p.steps, step.All T.Constant) (hvs : Value.AllMatch T.paired vs us) :
    T.Follows True ⟨p.run c o vs, p.trail c s o vs⟩ ⟨p.run c o us, p.trail c s o us⟩ Same := by
  refine plan_of hc rfl (buildAll hc hw hserves hp (.begin p hvs)) fun T₁ T₂ cs cs' hcs hl => ?_
  cases p.base with
  | none => exact .pure rfl
  | some b => exact base hc b (hcs.mono hl)

/-! ## Constructors and calls -/

/-- Running the body of a constructor. -/
theorem body (hw : w₀.Furnished) {b : ConstructorBody} (hb : b.All T.Constant)
    (hserves : ∀ p, b = .plan p → ∀ step ∈ p.steps, w₀.Serves step)
    (hvs : Value.AllMatch T.paired vs us) :
    T.Follows True ⟨b.run c o vs, b.trail c s o vs⟩ ⟨b.run c o us, b.trail c s o us⟩ Same := by
  cases b with
  | routine r => exact .discard (routine hc (.method o hvs) r hb)
  | chain base =>
    cases base with
    | none => exact .pure rfl
    | some tk => exact hc.chain T tk.1 tk.2 o .nil
  | wrapped kind =>
    refine .present kind o ?_
    cases hvs with
    | nil => exact .null
    | cons hv _ => exact hv
  | plan p => exact plan hc hw (hserves p rfl) hb hvs

/-- Running a constructor that a lookup has found. -/
theorem constructor (hw : w₀.Furnished) {t : Ty} {k n : Nat} {decl : ConstructorDecl}
    (hd : T.left.schema.constructorFor t k n = .ok decl) (hvs : Value.AllMatch T.paired vs us) :
    T.Follows True ⟨decl.body.run c o vs, decl.body.trail c s o vs⟩
      ⟨decl.body.run c o us, decl.body.trail c s o us⟩ Same := by
  rw [T.leftStays.schema] at hd
  refine body hc hw (T.literals.constructorFor hd) (fun p hp => ?_) hvs
  obtain ⟨d, hclass, hm⟩ := Schema.mem_constructors (Schema.constructorFor_eq_ok_iff.mp hd).1
  obtain ⟨c, rfl, -⟩ := Schema.lt_size_of_decl? hclass
  exact hw.planned hclass decl hm p hp

end

/-- **Calls do in twin worlds alike**, to whatever depth they may nest. -/
theorem nested_alike (hw : w₀.Furnished) (depth : Nat) :
    Alike w₀ (Calls.nested depth) (Trails.nested depth) := by
  induction depth with
  | zero =>
    exact ⟨fun _ _ _ => .halt _, fun _ _ _ _ _ _ => .halt _, fun _ _ _ _ _ _ => .halt _,
      fun _ _ _ _ _ _ _ => .halt _⟩
  | succ depth ih =>
    refine ⟨fun T o name => ?_, fun T o name v u hv => ?_, fun T t k vs us hvs => ?_,
      fun T t k o vs us hvs => ?_⟩
    · have hgetter : T.right.schema.getterFor (T.right.classOf o) name =
          T.left.schema.getterFor (T.left.classOf o) name := by rw [T.schema_eq, T.classOf_eq]
      refine .after (Q := fun T' g g' => g = g' ∧ g.All T'.Constant) (.check_eq hgetter fun g hg => ?_)
        fun T₁ g g' _ hg => ?_
      · rw [T.leftStays.schema] at hg
        exact ⟨rfl, T.literals.getterFor hg⟩
      · obtain ⟨rfl, hg⟩ := hg
        exact getter ih g hg
    · have hsetter : T.right.schema.setterFor (T.right.classOf o) name =
          T.left.schema.setterFor (T.left.classOf o) name := by rw [T.schema_eq, T.classOf_eq]
      refine .after (Q := fun T' g g' => g = g' ∧ g.All T'.Constant) (.check_eq hsetter fun g hg => ?_)
        fun T₁ g g' hl hg => ?_
      · rw [T.leftStays.schema] at hg
        exact ⟨rfl, T.literals.setterFor hg⟩
      · obtain ⟨rfl, hg⟩ := hg
        exact setter ih g hg (hv.mono hl.paired)
    · show T.Follows True ⟨(Calls.nested depth).constructStep t k vs, _⟩
        ⟨(Calls.nested depth).constructStep t k us, _⟩ Same
      rw [Calls.constructStep_eq, Calls.constructStep_eq]
      simp only [Trails.nested, hvs.length_eq]
      refine .after (.enter T t k us.length) fun T₁ r r' hl hr => ?_
      obtain ⟨rfl, hd⟩ := hr
      exact .before (constructor ih hw hd (hvs.mono hl.paired)) fun _ _ _ _ _ => .pure rfl
    · show T.Follows True ⟨(Calls.nested depth).chainStep t k o vs, _⟩
        ⟨(Calls.nested depth).chainStep t k o us, _⟩ Same
      have hdecl : T.right.schema.constructorFor t k us.length =
          T.left.schema.constructorFor t k vs.length := by rw [T.schema_eq, hvs.length_eq]
      refine .after (Q := fun T' d d' => d = d' ∧ T'.left.schema.constructorFor t k vs.length = .ok d)
        (.check_eq hdecl fun d hd => ⟨rfl, hd⟩) fun T₁ d d' hl hd => ?_
      obtain ⟨rfl, hd⟩ := hd
      exact constructor ih hw hd (hvs.mono hl.paired)

end Twins

end RecordForge
