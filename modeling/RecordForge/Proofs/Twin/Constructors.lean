import RecordForge.Proofs.Twin.Bodies
import RecordForge.Proofs.Twin.Families

/-!
# The two constructors of an implementation

The default constructor of an implementation and the factory constructor do the same, apart from the
carriers that they hand on (`Twins.nested_parallel`). The default constructor runs those of nested
implementations itself, or gives them a carrier that it makes; the factory constructor turns to their
descriptors with the carrier that it is given. Nobody else gets to know these carriers, as long as no
constructor takes one that is not the factory constructor of an implementation.

The induction is on the depth of calls. Beside the default and the factory constructor it is about two
runs of the factory constructor, with different carriers, since that is what the default constructor
comes to when a field has construction parameters. The latter agree in any case; the former, if the
default constructor succeeds, because only the factory constructor contains the faults of its fields.
-/

namespace RecordForge

open Run

/-- A creation with a carrier, through a descriptor whose constructor takes it. -/
theorem Descriptor.Balanced.createWith {w : World} {bare : Prop} {Member : Descriptor → Prop}
    {x : Descriptor} {plans : List FieldPlan}
    {infos : List InfoStep} {base : Option BaseCall} (hx : x.Balanced w bare Member plans infos base)
    (c : Calls) (s : Trails) (a : CarrierId) :
    x.createWith c a = x.guarded c factoryIndex [.carrier a] ∧
      x.trail s (some a) = s.construct x.product factoryIndex [.carrier a] := by
  rw [Descriptor.createWith, Descriptor.trail, hx.factory]
  simp only [Descriptor.given, hx.takes, if_true, Option.elim_some, and_self]

namespace Twins

variable {w₀ : World} {bare : Prop} {Member : Descriptor → Prop} {T T' : Twins w₀} {c : Calls}
variable {s : Trails} {a b : CarrierId} {o : ObjectId} {cs cs' : Carriers} {x : Descriptor}

/-- What is created by the constructors of a family, by the default constructor or with a carrier that
nobody knows, is created by the factory constructor with another such carrier. If the family is bare,
it does not matter for the default constructor whether the carrier is known. -/
structure Parallel (w₀ : World) (bare : Prop) (Member : Descriptor → Prop) (c : Calls) (s : Trails) :
    Prop where
  default : ∀ (T : Twins w₀) {x b}, Member x → T.HidesRight b ∨ bare → T.Follows False
    ⟨c.construct x.product defaultIndex [], s.construct x.product defaultIndex []⟩
    ⟨c.construct x.product factoryIndex [.carrier b], s.construct x.product factoryIndex [.carrier b]⟩
    fun T' o o' => o = o' ∧ T'.right.classOf o' = x.product
  factory : ∀ (T : Twins w₀) {x a b}, Member x → T.HidesLeft a → T.HidesRight b → T.Follows True
    ⟨c.construct x.product factoryIndex [.carrier a], s.construct x.product factoryIndex [.carrier a]⟩
    ⟨c.construct x.product factoryIndex [.carrier b], s.construct x.product factoryIndex [.carrier b]⟩
    Same

/-! ## Hidden carriers -/

/-- A construction of the first world has hidden carriers only, and the other one has been given a
carrier. -/
structure Hidden (T : Twins w₀) (b : CarrierId) (cs cs' : Carriers) : Prop where
  argument : ∀ a ∈ cs.argument, T.HidesLeft a
  transient : ∀ a ∈ cs.transient, T.HidesLeft a
  given : cs'.argument = some b

theorem Hidden.mono (h : T.Hidden b cs cs') (hl : T.Leads T') : T'.Hidden b cs cs' :=
  ⟨fun a ha => (h.argument a ha).mono hl, fun a ha => (h.transient a ha).mono hl, h.given⟩

/-- The first world makes a carrier that nobody knows. -/
theorem exists_newCarrier (T : Twins w₀) : ∃ T' : Twins w₀, T.Leads T' ∧ T'.right = T.right ∧
    T'.left = { T.left with heap := T.left.heap.newCarrier.2 } ∧
      T'.HidesLeft T.left.heap.carriers.size := by
  have htweaks := Tweaks.newCarrier T.leftStays (P := fun a => ∃ b, T.paired a b)
    fun a ⟨b, hab⟩ => (T.carriers hab).1
  refine ⟨T.moveLeft _ htweaks, T.leads_moveLeft htweaks, rfl, rfl, ?_, fun b hab => ?_⟩
  · show _ < (T.left.heap.carriers.push none).size
    rw [Array.size_push]
    exact Nat.lt_succ_self _
  · exact Nat.lt_irrefl _ (T.carriers hab).1

namespace Follows

/-- The first construction takes a hidden carrier, the other one that which it has been given. -/
theorem take_hidden (hcs : T.Hidden b cs cs') (source : CarrierSource) :
    T.Follows True (.silent (cs.take source)) (.silent (cs'.take .argument)) fun T' r r' =>
      T'.HidesLeft r.1 ∧ r'.1 = b ∧ T'.Hidden b r.2 r'.2 := by
  have hright : ∀ w, cs'.take .argument w = (.ok (b, cs'), w) := fun w => by
    obtain ⟨argument, transient⟩ := cs'
    obtain rfl : argument = some b := hcs.given
    rfl
  obtain ⟨x, y⟩ := cs
  cases source with
  | argument =>
    cases x with
    | some a =>
      exact of_ok rfl (hright T.right) (.refl T) ⟨hcs.argument a rfl, rfl, hcs⟩
    | none =>
      obtain ⟨T', hl, hsame, hleft, hnew⟩ := T.exists_newCarrier
      refine of_ok (by rw [hleft]; rfl) (by rw [hsame]; exact hright T.right) hl ⟨hnew, rfl, ?_⟩
      exact ⟨fun a ha => Option.some.inj ha ▸ hnew, (hcs.mono hl).transient, hcs.given⟩
  | transient =>
    cases y with
    | some a =>
      exact of_ok rfl (hright T.right) (.refl T) ⟨hcs.transient a rfl, rfl, hcs⟩
    | none =>
      obtain ⟨T', hl, hsame, hleft, hnew⟩ := T.exists_newCarrier
      refine of_ok (by rw [hleft]; rfl) (by rw [hsame]; exact hright T.right) hl ⟨hnew, rfl, ?_⟩
      exact ⟨(hcs.mono hl).argument, fun a ha => Option.some.inj ha ▸ hnew, hcs.given⟩

/-- A creation succeeds if its constructor does what one does that succeeds. -/
theorem created {t : Ty} {k k' : Nat} {vs us : List Value} {p q : World → List Performance}
    {Q : Twins w₀ → ObjectId → ObjectId → Prop}
    (h : T.Follows False ⟨c.construct t k vs, p⟩ ⟨c.construct x.product k' us, q⟩ Q) :
    T.Follows False ⟨c.construct t k vs, p⟩ ⟨x.guarded c k' us, q⟩
      fun T' o r => ∃ o', r = .created o' ∧ Q T' o o' := by
  intro hend
  obtain ⟨T', hl, hx, hy, hends, hbodies⟩ := h hend
  obtain ⟨o, ho⟩ := hend.resolve_left id
  dsimp only at ho hx hy hends hbodies ⊢
  rw [ho] at hends ⊢
  generalize hr : (c.construct x.product k' us T.right).1 = r at hends
  cases hends with
  | @ok _ o' hQ =>
    have hguarded : x.guarded c k' us T.right = (.ok (.created o'), T'.right) := by
      rw [Descriptor.guarded, bind_of_ok outcome_run, hr, hy]
      rfl
    rw [hguarded]
    exact ⟨T', hl, hx, rfl, .ok ⟨o', rfl, hQ⟩, hbodies⟩

end Follows

/-! ## Fields -/

section
variable (hc : Alike w₀ c s) (hp : Parallel w₀ bare Member c s) (hw : w₀.Furnished)
variable (hfamily : w₀.Family bare Member)
include hp hw hfamily

/-- Both constructors turn to a descriptor, with carriers that nobody knows. -/
theorem build_turned {f : PropertyField} {l : LookupId} {lookup : Lookup} {registry : Registry}
    {e : DescriptorId} (hpublished : w₀.Published l lookup registry e x) (hx : Member x)
    (source : CarrierSource) (hb : T.HidesRight b) (hcs : T.Hidden b cs cs')
    (hstep : (f.step (.lookup l source)).All T.Constant) :
    T.Follows True
      ⟨(f.step (.lookup l source)).build c cs, (f.step (.lookup l source)).trail s cs⟩
      ⟨(f.step (.lookup l .argument)).build c cs', (f.step (.lookup l .argument)).trail s cs'⟩
      fun T' r r' => T'.Match r.1 r'.1 ∧ T'.Hidden b r.2 r'.2 := by
  obtain ⟨plans, infos, base, hbalanced⟩ := hfamily x hx
  refine .after (.resolve T hw hpublished) fun T₁ x₁ x₂ hl₁ hsame => ?_
  obtain ⟨rfl, rfl⟩ := hsame
  refine .after (.take_hidden (hcs.mono hl₁) source) fun T₂ r r' hl₂ hr => ?_
  obtain ⟨a, cs₁⟩ := r
  obtain ⟨b', cs₁'⟩ := r'
  obtain ⟨ha, rfl, hcs₁⟩ := hr
  have hb₂ := hb.mono (hl₁.trans hl₂)
  have hcreate : T₂.Follows True
      ⟨withParameters a f.parameters (x.createWith c a),
        fun w => x.trail s (some a) (w.hold a f.parameters)⟩
      ⟨withParameters b' f.parameters (x.createWith c b'),
        fun w => x.trail s (some b') (w.hold b' f.parameters)⟩ Same := by
    refine .withParameters (.inr ⟨ha, hb₂⟩)
      (allMatch_parameters hstep (hl₁.trans hl₂))
      (fun T₃ hl₃ => ?_) fun _ _ _ _ _ => id
    rw [(hbalanced.createWith c s a).1, (hbalanced.createWith c s a).2,
      (hbalanced.createWith c s b').1, (hbalanced.createWith c s b').2]
    exact .guarded (hp.factory T₃ hx (ha.mono hl₃) (hb₂.mono hl₃))
  refine .before hcreate fun T₃ creation creation' hl₃ hsame => ?_
  subst hsame
  exact .silent (.received T₃ _ creation) fun T₄ v u hl₄ hv =>
    .pure ⟨hv, hcs₁.mono (hl₃.trans hl₄)⟩

/-- The default constructor runs that of a nested implementation; the factory constructor turns to its
descriptor. -/
theorem build_nested {f : PropertyField} {l : LookupId} {lookup : Lookup} {registry : Registry}
    {e : DescriptorId} (hpublished : w₀.Published l lookup registry e x)
    (halive : registry.isAlive = true) (hx : Member x)
    (hfits : w₀.schema.isAssignable x.product f.fieldType = true) (hnone : f.parameters = none)
    (hb : T.HidesRight b ∨ bare) (hcs : T.Hidden b cs cs') :
    T.Follows False
      ⟨(f.step (.direct x.product defaultIndex [])).build c cs,
        (f.step (.direct x.product defaultIndex [])).trail s cs⟩
      ⟨(f.step (.lookup l .argument)).build c cs', (f.step (.lookup l .argument)).trail s cs'⟩
      fun T' r r' => T'.Match r.1 r'.1 ∧ T'.Hidden b r.2 r'.2 := by
  obtain ⟨plans, infos, base, hbalanced⟩ := hfamily x hx
  obtain ⟨rs, hresolve, hstays⟩ : ∃ lookups, T.right.resolve l = .ok (x, { T.right with lookups }) ∧
      w₀.Stays { T.right with lookups } := by
    rcases hpublished.resolve hw with hfound | ⟨hdead, -⟩
    · exact hfound T.right T.rightStays
    · rw [halive] at hdead
      cases hdead
  have htweaks := Tweaks.resolve (P := fun b => ∃ a, T.paired a b) hstays
  have hleads := T.leads_moveRight htweaks
  have htake : cs'.take .argument { T.right with lookups := rs } =
      (.ok (b, cs'), { T.right with lookups := rs }) := by
    obtain ⟨argument, transient⟩ := cs'
    obtain rfl : argument = some b := hcs.given
    rfl
  -- a step without parameters leaves the carrier as it is
  have hcreate : (T.moveRight _ htweaks).Follows False
      ⟨c.construct x.product defaultIndex [], s.construct x.product defaultIndex []⟩
      ⟨withParameters b f.parameters (x.createWith c b),
        fun w => x.trail s (some b) (w.hold b f.parameters)⟩
      fun T' o r => ∃ o', r = .created o' ∧ o = o' ∧ T'.right.classOf o' = x.product := by
    rw [hnone, (hbalanced.createWith c s b).1, (hbalanced.createWith c s b).2]
    exact .created (hp.default _ hx (hb.imp_left fun h => h.mono hleads))
  have hbuild : (f.step (.direct x.product defaultIndex [])).build c cs =
      c.construct x.product defaultIndex [] >>= fun o => Pure.pure (.object o, cs) := by
    show (Pure.pure [] >>= fun values => c.construct x.product defaultIndex values >>= fun o =>
      Pure.pure (.object o, cs) : Run (Value × Carriers)) = _
    rw [pure_bind]
  have htrail : (f.step (.direct x.product defaultIndex [])).trail s cs =
      s.construct x.product defaultIndex [] := rfl
  rw [hbuild, htrail]
  refine .right (U := T.moveRight _ htweaks) (resolve_eq_ok_iff.mpr hresolve) rfl hleads
    (.right (U := T.moveRight _ htweaks) htake rfl (.refl _) (.before hcreate ?_))
  rintro T₁ o _ hl ⟨o', rfl, rfl, hclass⟩
  have hinstance : T₁.right.isInstance o f.fieldType = true := by
    rw [World.isInstance, hclass, T₁.rightStays.schema]
    exact hfits
  refine .of_ok (b := (.object o, cs')) rfl ?_ (.refl T₁)
    ⟨.object o, hcs.mono (hleads.trans hl)⟩
  rw [ask_bind, BuildStep.received_created _ hinstance]
  rfl

omit hp hw hfamily in
/-- Both constructors build a field directly, in the same way. -/
theorem build_direct (hc : Alike w₀ c s) {f : PropertyField} {t : Ty} {k : Nat} {args : List Operand}
    (hcs : T.Hidden b cs cs') (hstep : (f.step (.direct t k args)).All T.Constant) :
    T.Follows True
      ⟨(f.step (.direct t k args)).build c cs, (f.step (.direct t k args)).trail s cs⟩
      ⟨(f.step (.direct t k args)).build c cs', (f.step (.direct t k args)).trail s cs'⟩
      fun T' r r' => T'.Match r.1 r'.1 ∧ T'.Hidden b r.2 r'.2 := by
  refine .after (.loadAll hstep.parameters (hstep.literals t k args rfl))
    fun T₁ vs us hl₁ hvs => .before (hc.construct T₁ t k hvs) fun T₂ o o' hl₂ ho => ?_
  subst ho
  exact .pure ⟨.object o, hcs.mono (hl₁.trans hl₂)⟩

/-- The two constructors build a field alike, if the default constructor succeeds. -/
theorem step_default (hc : Alike w₀ c s) {plan : FieldPlan} (hplan : plan.Balanced w₀ bare Member)
    (hb : T.HidesRight b ∨ bare) (hall : plan.default.All T.Constant) :
    ∃ step, plan.factory = some step ∧ ∀ (T' : Twins w₀) cs cs', T.Leads T' → T'.Hidden b cs cs' →
      T'.Follows False ⟨plan.default.run c o cs, plan.default.trail s cs⟩
        ⟨step.run c o cs', step.trail s cs'⟩ (Hidden · b) := by
  have hmono : ∀ (T₁ T₂ : Twins w₀) cs cs', T₁.Leads T₂ → T₁.Hidden b cs cs' → T₂.Hidden b cs cs' :=
    fun _ _ _ _ hl h => h.mono hl
  cases hplan with
  | direct _ =>
    exact ⟨_, rfl, fun T' cs cs' hl hcs =>
      .step rfl (.weaken (build_direct hc hcs (hall.imp fun _ => .mono hl))) hmono⟩
  | @turned f l lookup registry e x info hpublished halive hx hfits hbare =>
    refine ⟨_, rfl, fun T' cs cs' hl hcs => ?_⟩
    cases hf : f.parameters with
    | none =>
      exact .step rfl (build_nested hp hw hfamily hpublished halive hx hfits hf
        (hb.imp_left fun h => h.mono hl) hcs) hmono
    | some vs =>
      have hhides : T.HidesRight b := hb.resolve_right fun h => by
        rw [hbare h] at hf
        cases hf
      have hall : (f.step (.lookup l .transient)).All T.Constant := by
        rw [hf] at hall
        exact hall
      exact .step rfl (.weaken (build_turned hp hw hfamily hpublished hx .transient (hhides.mono hl) hcs
        (hall.imp fun _ => .mono hl))) hmono

/-- Two runs of the factory constructor build a field alike. -/
theorem step_factory (hc : Alike w₀ c s) {plan : FieldPlan} (hplan : plan.Balanced w₀ bare Member)
    (hb : T.HidesRight b) {step : BuildStep} (hstep : plan.factory = some step)
    (hall : step.All T.Constant) (T' : Twins w₀) (cs cs' : Carriers) (hl : T.Leads T')
    (hcs : T'.Hidden b cs cs') : T'.Follows True ⟨step.run c o cs, step.trail s cs⟩
      ⟨step.run c o cs', step.trail s cs'⟩ (Hidden · b) := by
  refine .step rfl ?_ fun _ _ _ _ hl (h : Hidden _ b _ _) => h.mono hl
  cases hplan with
  | direct =>
    obtain rfl := Option.some.inj hstep
    exact build_direct hc hcs (hall.imp fun _ => .mono hl)
  | turned hpublished halive hx hfits hbare =>
    obtain rfl := Option.some.inj hstep
    exact build_turned hp hw hfamily hpublished hx .argument (hb.mono hl) hcs
      (hall.imp fun _ => .mono hl)

end

/-! ## Constructors -/

/-- The constructor of the abstract class is run without a carrier. -/
theorem base_plain (hc : Alike w₀ c s) {base : Option BaseCall}
    (hbase : ∀ b ∈ base, b.passesCarrier = false) (T : Twins w₀) (cs cs' : Carriers) :
    T.Follows True
      ⟨base.elim (pure ()) fun b => b.run c o cs, base.elim (fun _ => []) fun b => b.trail s o cs⟩
      ⟨base.elim (pure ()) fun b => b.run c o cs', base.elim (fun _ => []) fun b => b.trail s o cs'⟩
      Same := by
  cases base with
  | none => exact .pure rfl
  | some b =>
    have harguments : ∀ cs, b.arguments cs = pure [] := fun cs => by
      rw [BaseCall.arguments, hbase b rfl]
      rfl
    simp only [Option.elim_some, BaseCall.run_eq, BaseCall.trail, harguments]
    exact .after (Q := fun T' => Value.AllMatch T'.paired) (.pure .nil) fun T₁ vs us _ hvs =>
      hc.chain T₁ b.target b.constructor o hvs

/-- Two constructors of a class create what is alike if their bodies do what is alike. -/
theorem construct_of {strict : Prop} {depth : Nat} {t : Ty} {k k' : Nat} {vs us : List Value}
    {d d' : ConstructorDecl} (hd : w₀.schema.constructorFor t k vs.length = .ok d)
    (hd' : w₀.schema.constructorFor t k' us.length = .ok d')
    (hbody : ∀ T' o, T.Leads T' → T'.Follows strict
      ⟨d.body.run (Calls.nested depth) o vs,
        d.body.trail (Calls.nested depth) (Trails.nested depth) o vs⟩
      ⟨d'.body.run (Calls.nested depth) o us,
        d'.body.trail (Calls.nested depth) (Trails.nested depth) o us⟩ Same) :
    T.Follows strict
      ⟨(Calls.nested (depth + 1)).construct t k vs, (Trails.nested (depth + 1)).construct t k vs⟩
      ⟨(Calls.nested (depth + 1)).construct t k' us, (Trails.nested (depth + 1)).construct t k' us⟩
      Same := by
  show T.Follows strict ⟨(Calls.nested depth).constructStep t k vs, _⟩
    ⟨(Calls.nested depth).constructStep t k' us, _⟩ Same
  rw [Calls.constructStep_eq, Calls.constructStep_eq]
  rw [← T.leftStays.schema] at hd hd'
  refine .after (.weaken (.enter_of_ok T hd hd')) fun T₁ r r' hl hr => ?_
  obtain ⟨o, decl⟩ := r
  obtain ⟨o', decl'⟩ := r'
  obtain ⟨rfl, rfl, rfl⟩ := hr
  exact .before (hbody T₁ o hl) fun _ _ _ _ _ => .pure rfl

/-- The parts of a plan mean the same in both worlds. -/
theorem constants_of_plan {t : Ty} {k n : Nat} {d : ConstructorDecl} {p : ConstructionPlan}
    (T : Twins w₀) (hd : w₀.schema.constructorFor t k n = .ok d) (hp : d.body = .plan p) :
    ∀ step ∈ p.steps, step.All T.Constant := by
  have hall := T.literals.constructorFor hd
  rw [hp] at hall
  exact hall

/-- The fields of the default constructor are in step with those of the factory constructor if each plan
has a step for either. -/
theorem forall₂_steps {P : BuildStep → BuildStep → Prop} {plans : List FieldPlan}
    (h : ∀ plan ∈ plans, ∃ step, plan.factory = some step ∧ P plan.default step) :
    List.Forall₂ P (plans.map FieldPlan.default) (plans.filterMap FieldPlan.factory) := by
  induction plans with
  | nil => exact .nil
  | cons plan plans ih =>
    obtain ⟨step, hstep, hP⟩ := h plan List.mem_cons_self
    rw [List.map_cons, List.filterMap_cons_some hstep]
    exact .cons hP (ih fun plan hm => h plan (List.mem_cons_of_mem _ hm))

/-- **The two constructors of an implementation do the same**, to whatever depth calls may nest. -/
theorem nested_parallel (hw : w₀.Furnished) (hfamily : w₀.Family bare Member) (depth : Nat) :
    Parallel w₀ bare Member (Calls.nested depth) (Trails.nested depth) := by
  induction depth with
  | zero =>
    refine ⟨fun T x b _ _ hend => ?_, fun T x a b _ _ _ => .halt _⟩
    obtain ⟨o, ho⟩ := hend.resolve_left id
    cases ho
  | succ depth ih =>
    have hc := nested_alike hw depth
    refine ⟨fun T x b hx hb => ?_, fun T x a b hx ha hb => ?_⟩
    · obtain ⟨plans, infos, base, hbalanced⟩ := hfamily x hx
      have hbase : ∀ b ∈ base, b.passesCarrier = false := fun b hb => (hbalanced.base b hb).1
      obtain ⟨d, hd, hdefault⟩ := hbalanced.default_plan
      obtain ⟨d', hd', hfactory⟩ := hbalanced.factory_plan
      have hsame : T.Follows False
          ⟨(Calls.nested (depth + 1)).construct x.product defaultIndex [],
            (Trails.nested (depth + 1)).construct x.product defaultIndex []⟩
          ⟨(Calls.nested (depth + 1)).construct x.product factoryIndex [.carrier b],
            (Trails.nested (depth + 1)).construct x.product factoryIndex [.carrier b]⟩ Same := by
        refine construct_of hd hd' fun T' o hl => ?_
        rw [hdefault, hfactory]
        have hstart : T'.Hidden b { argument := none } { argument := some b } := .mk nofun nofun rfl
        refine plan_of hc (R := (Hidden · b)) rfl (.buildAll (forall₂_steps fun plan hplan => ?_) hstart)
          fun T₁ T₂ cs cs' _ _ => base_plain hc hbase T₂ cs cs'
        exact step_default ih hw hfamily hc (hbalanced.fields plan hplan) (hb.imp_left fun h => h.mono hl)
          (constants_of_plan T' hd hdefault _ (List.mem_map_of_mem hplan))
      have hclass : ∀ o w, (Calls.nested (depth + 1)).construct x.product factoryIndex [.carrier b]
          T.right = (.ok o, w) → w.classOf o = x.product :=
        fun o w h => (construct_grows h).2
      exact hsame.also hclass
    · obtain ⟨plans, infos, base, hbalanced⟩ := hfamily x hx
      have hbase : ∀ b ∈ base, b.passesCarrier = false := fun b hb => (hbalanced.base b hb).1
      obtain ⟨d, hd, hfactory⟩ := hbalanced.factory_plan
      refine construct_of hd hd fun T' o hl => ?_
      rw [hfactory]
      have hstart : T'.Hidden b { argument := some a } { argument := some b } :=
        .mk (fun _ h => Option.some.inj h ▸ ha.mono hl) nofun rfl
      refine plan_of hc (R := (Hidden · b)) rfl
        (.buildAll (List.forall₂_same.mpr fun step hm => ?_) hstart)
        fun T₁ T₂ cs cs' _ _ => base_plain hc hbase T₂ cs cs'
      obtain ⟨plan, hplan, hstep⟩ := List.mem_filterMap.mp hm
      exact step_factory ih hw hfamily hc (hbalanced.fields plan hplan) (hb.mono hl) hstep
        (constants_of_plan T' hd hfactory step hm)

end Twins

end RecordForge
