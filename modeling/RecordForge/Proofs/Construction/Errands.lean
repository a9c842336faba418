import RecordForge.Proofs.Access.OwnedFields
import RecordForge.Proofs.Layout.OwnedSlots

/-!
# Errands of a plan

A plan has errands to run for an object: it builds fields, tells values of fields which properties they
belong to, and has a constructor of the abstract class run (`ConstructionPlan.agenda`). It runs them one
after the other, each once, and none after one that halts (`ConstructionPlan.itinerary`).

So an owned object whose class asks for it is told its property when all owned fields have been built,
and before the constructor of the abstract class is run: once, by the nearest receiver of its class, and
with the property as it is declared, whatever type the field has (`World.properties_told`).
-/

namespace RecordForge

open Run

/-! ## Errands -/

/-- Something that a plan does for an object. -/
inductive Errand where
  /-- Builds a field. -/
  | build (step : BuildStep)
  /-- Tells the value of a field its property. -/
  | inform (i : InfoStep)
  /-- Has a constructor of the abstract class run. -/
  | base (b : BaseCall)

/-- What a plan does, in order. -/
def ConstructionPlan.agenda (p : ConstructionPlan) : List Errand :=
  p.steps.map .build ++ (p.infos.map .inform ++ p.base.toList.map .base)

/-- The situation in which an errand that is begun in a world is done for an object. -/
inductive Errand.Begins (o : ObjectId) (os : List ObjectId) (w : World) : Errand → Situation → Prop
  | build {step : BuildStep} {cs : Carriers} : Begins o os w (.build step) ⟨w, .build o step cs, o :: os⟩
  | inform {i : InfoStep} : Begins o os w (.inform i) ⟨w, .inform o i, o :: os⟩
  | base {b : BaseCall} {cs : Carriers} {args : List Value} {w' : World}
      (ha : b.arguments cs w = (.ok args, w')) :
      Begins o os w (.base b) ⟨w', .chain b.target b.constructor o args, os⟩

/-- Errands are run one after the other, each in a situation of its own and in the world that the one
before has left, until they are done, or one halts. -/
inductive Itinerary (c : Calls) (o : ObjectId) (os : List ObjectId) :
    World → List Errand → List Situation → Except Halt Unit × World → Prop
  | done {w : World} : Itinerary c o os w [] [] (.ok (), w)
  | halts {w w' : World} {e : Errand} {es : List Errand} {m : Situation} {h : Halt}
      (hm : e.Begins o os w m) (hrun : m.act.run c m.world = (.error h, w')) :
      Itinerary c o os w (e :: es) [m] (.error h, w')
  | goes {w w' : World} {e : Errand} {es : List Errand} {m : Situation} {ms : List Situation}
      {r : Except Halt Unit × World} (hm : e.Begins o os w m)
      (hrun : m.act.run c m.world = (.ok (), w')) (hrest : Itinerary c o os w' es ms r) :
      Itinerary c o os w (e :: es) (m :: ms) r

namespace Itinerary

variable {c : Calls} {o : ObjectId} {os : List ObjectId} {w w' : World} {es es' : List Errand}
variable {ms ms' : List Situation} {r : Except Halt Unit × World} {x : Halt}

/-- Further errands are run after the last one that is done. -/
theorem append (h : Itinerary c o os w es ms (.ok (), w')) (h' : Itinerary c o os w' es' ms' r) :
    Itinerary c o os w (es ++ es') (ms ++ ms') r := by
  generalize hr : (Except.ok (), w') = r₀ at h
  induction h with
  | done =>
    obtain rfl := (Prod.mk.inj hr).2
    exact h'
  | halts => cases hr
  | goes hm hrun _ ih => exact .goes hm hrun (ih hr)

/-- After one that halts, none is. -/
theorem append_of_halt (h : Itinerary c o os w es ms (.error x, w')) (es' : List Errand) :
    Itinerary c o os w (es ++ es') ms (.error x, w') := by
  generalize hr : (Except.error _, w') = r₀ at h
  induction h with
  | done => cases hr
  | halts hm hrun =>
    obtain ⟨he, rfl⟩ := Prod.mk.inj hr
    obtain rfl := Except.error.inj he
    exact .halts hm hrun
  | goes hm hrun _ ih => exact .goes hm hrun (ih hr)

/-- In an itinerary that ends, what is done in each situation is an errand, and ends. -/
theorem ends (h : Itinerary c o os w es ms (.ok (), w')) :
    ∀ m ∈ ms, (∃ e ∈ es, ∃ w₁, e.Begins o os w₁ m) ∧ ∃ w₁, m.act.run c m.world = (.ok (), w₁) := by
  generalize hr : (Except.ok (), w') = r₀ at h
  induction h with
  | done => exact fun m hm => nomatch hm
  | halts => cases hr
  | goes hm hrun _ ih =>
    intro m hmem
    rcases List.mem_cons.mp hmem with rfl | hmem
    · exact ⟨⟨_, List.mem_cons_self, _, hm⟩, _, hrun⟩
    · obtain ⟨⟨e, he, hbegins⟩, hends⟩ := ih hr m hmem
      exact ⟨⟨e, List.mem_cons_of_mem _ he, hbegins⟩, hends⟩

/-- In an itinerary that ends, each errand is done, between those before it and those after it. -/
theorem split {e : Errand} (h : Itinerary c o os w (es ++ e :: es') ms (.ok (), w')) :
    ∃ ms₁ m ms₂ w₁ w₂, ms = ms₁ ++ m :: ms₂ ∧ Itinerary c o os w es ms₁ (.ok (), w₁) ∧
      e.Begins o os w₁ m ∧ m.act.run c m.world = (.ok (), w₂) ∧
        Itinerary c o os w₂ es' ms₂ (.ok (), w') := by
  induction es generalizing w ms with
  | nil =>
    cases h with
    | goes hm hrun hrest => exact ⟨[], _, _, w, _, rfl, .done, hm, hrun, hrest⟩
  | cons e' es ih =>
    cases h with
    | goes hm hrun hrest =>
      obtain ⟨ms₁, m, ms₂, w₁, w₂, rfl, hbefore, hrest⟩ := ih hrest
      exact ⟨_ :: ms₁, m, ms₂, w₁, w₂, rfl, .goes hm hrun hbefore, hrest⟩

end Itinerary

namespace Run

variable {α : Type} {x : Run α} {w w' : World}

theorem discard_run : discard x w = (x >>= fun _ => pure ()) w := rfl

theorem following_of_error {γ : Type} {f : α → World → List γ} {e : Halt} (h : x w = (.error e, w')) :
    following x f w = [] := by
  rw [following, h]

end Run

namespace Situation

variable {c : Calls} {o : ObjectId} {os : List ObjectId}

/-- The fields that steps build are an itinerary. -/
theorem builds_itinerary (steps : List BuildStep) (cs : Carriers) (w : World) :
    Itinerary c o os w (steps.map .build) (builds c o os steps cs w)
      (discard (BuildStep.runAll c o steps cs) w) := by
  induction steps generalizing cs w with
  | nil => exact .done
  | cons step steps ih =>
    rw [builds, List.map_cons, discard_run, BuildStep.runAll]
    rcases hrun : step.run c o cs w with ⟨x | cs', w'⟩
    · have hact : (Act.build o step cs).run c w = (.error x, w') := by
        rw [Act.run, discard_run, bind_of_error hrun]
      rw [bind_of_error (bind_of_error hrun), following_of_error hrun]
      exact .halts .build hact
    · have hact : (Act.build o step cs).run c w = (.ok (), w') := by
        rw [Act.run, discard_run, bind_of_ok hrun, pure_run]
      rw [bind_assoc, bind_of_ok hrun, following_of_ok hrun]
      exact .goes .build hact (ih cs' w')

/-- So are the values that are told their properties. -/
theorem informs_itinerary (is : List InfoStep) (w : World) :
    Itinerary c o os w (is.map .inform) (informs c o os is w) (is.forM (InfoStep.run c o) w) := by
  induction is generalizing w with
  | nil => exact .done
  | cons i is ih =>
    rw [informs, List.map_cons]
    rcases hrun : i.run c o w with ⟨x | u, w'⟩
    · have hall : (i :: is).forM (InfoStep.run c o) w = (.error x, w') := bind_of_error hrun
      rw [hall, following_of_error hrun]
      exact .halts .inform hrun
    · have hall : (i :: is).forM (InfoStep.run c o) w = is.forM (InfoStep.run c o) w' := bind_of_ok hrun
      rw [hall, following_of_ok hrun]
      exact .goes .inform hrun (ih w')

/-- So is the call of a constructor of the abstract class. -/
theorem base_itinerary (b : BaseCall) (cs : Carriers) (w : World) :
    Itinerary c o os w [.base b] (following (b.arguments cs) (fun values w =>
      [⟨w, .chain b.target b.constructor o values, os⟩]) w) (b.run c o cs w) := by
  -- getting the arguments never halts
  obtain ⟨values, carriers, hargs, -⟩ := b.arguments_spec cs w
  rw [BaseCall.run_eq, bind_of_ok hargs, following_of_ok hargs]
  rcases hrun : c.chain b.target b.constructor o values _ with ⟨x | u, w'⟩
  · exact .halts (.base hargs) hrun
  · exact .goes (.base hargs) hrun .done

end Situation

/-- **A plan runs its errands** in order, each once, until one halts. What it starts are the situations
in which it does so. -/
theorem ConstructionPlan.itinerary (p : ConstructionPlan) (c : Calls) (o : ObjectId) (os : List ObjectId)
    (args : List Value) (w : World) :
    Itinerary c o os w p.agenda (Situation.planned c o os args p w) (p.run c o args w) := by
  have hbuilds : Itinerary c o os w _ _ _ :=
    Situation.builds_itinerary p.steps (p.carriers args) w
  rw [Situation.planned, agenda]
  rcases hsteps : BuildStep.runAll c o p.steps (p.carriers args) w with ⟨x | cs, w₁⟩
  · have hrun : p.run c o args w = (.error x, w₁) := bind_of_error hsteps
    rw [discard_run, bind_of_error hsteps] at hbuilds
    rw [hrun, following_of_error hsteps, List.append_nil]
    exact hbuilds.append_of_halt _
  rw [discard_run, bind_of_ok hsteps, pure_run] at hbuilds
  have hrun : p.run c o args w = (p.infos.forM (InfoStep.run c o) >>= fun _ =>
      p.base.elim (pure ()) fun b => b.run c o cs) w₁ := by
    refine (bind_of_ok hsteps).trans ?_
    cases p.base <;> rfl
  have hinforms : Itinerary c o os w₁ _ _ _ := Situation.informs_itinerary p.infos w₁
  rw [following_of_ok hsteps, hrun]
  refine hbuilds.append ?_
  rcases hinfos : p.infos.forM (InfoStep.run c o) w₁ with ⟨x | u, w₂⟩
  · rw [hinfos] at hinforms
    rw [bind_of_error hinfos, following_of_error hinfos, List.append_nil]
    exact hinforms.append_of_halt _
  rw [hinfos] at hinforms
  rw [bind_of_ok hinfos, following_of_ok hinfos]
  refine hinforms.append ?_
  cases p.base with
  | none => exact .done
  | some b => simpa using Situation.base_itinerary b cs w₂

/-! ## Telling a property -/

/-- What a receiver is run with: on the value of a field, for the property and its owner. -/
def InfoStep.frame (i : InfoStep) (o target : ObjectId) : Frame :=
  { this := some target, info := some ⟨o, i.propertyType, i.property⟩ }

/-- The value of a field of an object is told its property. It is an object, and the nearest receiver of
its class is run on it, which is all that happens. -/
structure World.Tells (w : World) (o : ObjectId) (i : InfoStep) (target : ObjectId) (r : Routine) :
    Prop where
  field : w.field o i.slot = .ok (.object target)
  receiver : w.schema.receiver? (w.classOf target) = some r
  runs : ∀ c, i.run c o w = (Act.perform (i.frame o target) r).run c w
  starts : ∀ os m, Situation.Starts ⟨w, .inform o i, os⟩ m ↔ m = ⟨w, .perform (i.frame o target) r, os⟩

/-- That is what has happened if telling a property ends. -/
theorem InfoStep.exists_tells {c : Calls} {o : ObjectId} {i : InfoStep} {w w' : World}
    (h : i.run c o w = (.ok (), w')) : ∃ target r, w.Tells o i target r := by
  rw [run] at h
  obtain ⟨v, w₁, hv, h⟩ := bind_eq_ok_iff.mp h
  obtain ⟨hv, rfl⟩ := check_eq_ok_iff.mp hv
  cases v with
  | object target =>
    dsimp only at h
    rw [ask_bind] at h
    cases hr : w₁.schema.receiver? (w₁.classOf target) with
    | none =>
      rw [hr] at h
      cases h
    | some r =>
      have hstarts : ∀ os,
          Situation.Starts ⟨w₁, .inform o i, os⟩ ⟨w₁, .perform (i.frame o target) r, os⟩ :=
        fun os => .inform_receiver hv hr
      refine ⟨target, r, hv, hr, fun c => ?_, fun os m => ⟨fun hm => ?_, fun hm => hm ▸ hstarts os⟩⟩
      · rw [run, bind_of_ok (check_of_ok hv)]
        dsimp only
        rw [ask_bind, hr]
        rfl
      · exact hm.unique (hstarts os) rfl
  | null => cases h
  | scalar k => cases h
  | carrier k => cases h

section
variable {w : Workshop} {S : Schema} {cache : List (Ty × DescriptorId)} {σ : Session} {t : Ty}
variable {base : ClassDecl} {i : Implementation}

namespace Implementation.Realizes

variable (hi : i.Realizes w S cache σ t base)
include hi

/-- Properties are told in the order in which they are declared. -/
theorem infos_sublist :
    (i.infos.map InfoStep.property).Sublist ((S.abstractProperties t).map PropertyDecl.name) := by
  have hnames : i.infos.map InfoStep.property =
      i.properties.filterMap fun f =>
        (f.plan.bind FieldPlan.info).map fun _ => f.field.property.name := by
    rw [Implementation.infos, Implementation.plans, List.filterMap_filterMap, List.map_filterMap]
    refine List.filterMap_congr fun f hf => ?_
    cases hfp : f.plan with
    | none => rfl
    | some plan =>
      have hinfo := (hi.plan_realizes hf hfp).info_eq
      rw [Option.bind_some, hinfo, FieldPlan.info?]
      split <;> rfl
  rw [hnames, ← hi.properties.properties, List.map_map]
  exact sublist_filterMap_map _ (fun f => f.plan.bind FieldPlan.info) i.properties

/-- Those are told whose fields are owned, if the types of the fields ask for it. What is told is the
property as it is declared. -/
theorem mem_infos_iff {step : InfoStep} : step ∈ i.infos ↔
    ∃ q F, ∃ k ∈ i.owned, (i.decl S).OwnsField S w.provider t q F k ∧
      S.implementsInterface F receiverInterface = true ∧
        step = ⟨backingName q.name, k, q.type, q.name⟩ := by
  constructor
  · intro hstep
    obtain ⟨plan, hplan, hinfo⟩ := List.mem_filterMap.mp hstep
    obtain ⟨f, hf, hfp⟩ := List.mem_filterMap.mp hplan
    rw [(hi.plan_realizes hf hfp).info_eq, FieldPlan.info?] at hinfo
    split at hinfo
    · next hasks =>
      have hslot : f.field.slot ∈ i.owned := List.mem_filterMap.mpr ⟨f, hf, by rw [hfp]; rfl⟩
      exact ⟨_, _, _, hslot, hi.ownsField hf hfp, hasks, (Option.some.inj hinfo).symm⟩
    · cases hinfo
  · rintro ⟨q, F, k, hk, howns, hasks, rfl⟩
    obtain ⟨f, hf, hslot⟩ := List.mem_filterMap.mp hk
    obtain ⟨plan, hfp, rfl⟩ := Option.map_eq_some_iff.mp hslot
    obtain ⟨fd, hfd, hname, rfl⟩ := howns.field
    obtain rfl := Option.some.inj (hfd.symm.trans (hi.layout_slot hf).2)
    -- the field is named for the property, and properties have distinct names
    obtain ⟨⟨a, hq⟩, -⟩ := Schema.mem_abstractProperties.mp howns.property
    obtain ⟨⟨a', hq'⟩, -⟩ := Schema.mem_abstractProperties.mp (hi.ownsField hf hfp).property
    have hname : f.field.property.name = q.name := String.append_right_inj _ |>.mp hname
    obtain rfl := Schema.publicProperties_unique hq' hq hname
    have hinfo : plan.info =
        some ⟨f.field.fieldName, f.field.slot, f.field.property.type, f.field.property.name⟩ := by
      rw [(hi.plan_realizes hf hfp).info_eq, FieldPlan.info?]
      exact if_pos hasks
    exact List.mem_filterMap.mpr ⟨plan, List.mem_filterMap.mpr ⟨f, hf, hfp⟩, hinfo⟩

end Implementation.Realizes

end

/-! ## Main result -/

namespace World

/-- **Properties are told once**, when the owner is complete. In a world that has come about from
nothing, an abstract class has a descriptor. Its implementation has a plan for each constructor. The
plans build the owned fields and then tell properties: in the order in which these are declared, those
whose fields are owned and of a type that asks for it. Last comes a constructor of the abstract class.

Whatever is run in between, a plan does this one after the other, each once, and nothing after something
that halts. If an instance is created then one of the plans has been run on it to the end. The situations
in which it has done its errands are all that it has started. In each in which it tells a property, the
field holds an object, and the nearest receiver of the class of that has been run, with the object, the
declared type and the name of the property, and the instance. -/
theorem properties_told {w : World} (harises : w.Arises) {reg : RegistryId} {registry : Registry}
    (hr : w.registries[reg]? = some registry) {t : Ty} {e : DescriptorId} {x : Descriptor}
    (hc : registry.cached? t = some e) (hx : w.descriptors[e]? = some x)
    (ht : w.schema.isAbstract t = true) :
    ∃ d slots, w.schema.decl? x.product = some d ∧ d.owned = some slots ∧
      (∀ q ∈ w.schema.abstractProperties t, ∀ F m, registry.provider.Chooses w.schema t q F m →
        registry.provider.owns w.schema F = true →
          ∃ k ∈ slots, d.OwnsField w.schema registry.provider t q F k) ∧
      (∀ ctor ∈ d.constructors, ∃ p, ctor.body = .plan p ∧ p.steps.map BuildStep.slot = slots ∧
        (p.infos.map InfoStep.property).Sublist
          ((w.schema.abstractProperties t).map PropertyDecl.name) ∧
        (∀ i, i ∈ p.infos ↔ ∃ q F, ∃ k ∈ slots, d.OwnsField w.schema registry.provider t q F k ∧
          w.schema.implementsInterface F receiverInterface = true ∧
            i = ⟨backingName q.name, k, q.type, q.name⟩) ∧
        (∀ b ∈ p.base, b.target = t) ∧
        ∀ c o os args b,
          Itinerary c o os b p.agenda (Situation.planned c o os args p b) (p.run c o args b)) ∧
      ∀ (given : Option CarrierId) depth o w', (∀ k ∈ given, (Value.carrier k).Known w.heap) →
        Run.create depth x given w = (.ok (.created o), w') →
          ∃ act ∈ x.creating given, ∃ ctor ∈ d.constructors, ∃ p n w₁ args ms,
            ctor.body = .plan p ∧ Situation.Starts ⟨w, act, []⟩ ⟨w₁, .body o args (.plan p), []⟩ ∧
            Itinerary (Calls.nested n) o [] w₁ p.agenda ms (.ok (), w') ∧
            (∀ m, Situation.Starts ⟨w₁, .body o args (.plan p), []⟩ m ↔ m ∈ ms) ∧
            ∀ b i os, ⟨b, .inform o i, os⟩ ∈ ms → ∃ target r, b.Tells o i target r := by
  obtain ⟨base, i, h₀, report, c, hproduct, hi, hdesc, hw⟩ := harises.exists_implementation hr hc hx ht
  have hd : w.schema.decl? x.product = some (i.decl w.schema) := by
    rw [hproduct]
    exact hw.cls
  refine ⟨i.decl w.schema, i.owned, hd, rfl, fun q hq F m hm ho => hi.exists_owned hq hm ho,
    fun ctor hctor => ?_, fun given depth o w' hgiven hrun => ?_⟩
  · obtain ⟨p, hp, hslots⟩ := hi.steps_slots hctor
    obtain ⟨p', hp', -, hbase⟩ := Implementation.Realizes.exists_plan hctor
    obtain rfl := ConstructorBody.plan.inj (hp'.symm.trans hp)
    have hinfos : p'.infos = i.infos := by
      rcases List.mem_pair.mp hctor with rfl | rfl <;>
        · obtain rfl := ConstructorBody.plan.inj hp
          rfl
    refine ⟨p', hp, hslots, ?_, ?_, fun b hb => (hbase b hb).trans hi.type,
      fun c o os => p'.itinerary c o os⟩
    · rw [hinfos]
      exact hi.infos_sublist
    · rw [hinfos]
      exact fun _ => hi.mem_infos_iff
  · obtain ⟨act, hact, p, n, w₁, args, hassembles⟩ := hw.exists_assembles hproduct hgiven hrun
    obtain ⟨ctor, hctor, hp⟩ := hassembles.plan
    have hitinerary := p.itinerary (Calls.nested n) o [] args w₁
    have hends := hassembles.run
    rw [hends] at hitinerary
    refine ⟨act, hact, ctor, hctor, p, n, w₁, args, _, hp, hassembles.starts, hitinerary,
      fun m => ⟨fun hm => ?_, fun hm => Situation.starts_of_mem_next hm⟩, fun b j os hm => ?_⟩
    · refine hm.mem_next (n := n) ?_
      show (p.run (Calls.nested n) o args w₁).1 ≠ _
      rw [hends]
      nofun
    · obtain ⟨-, b', htold⟩ := hitinerary.ends _ hm
      exact InfoStep.exists_tells htold

end World

namespace Scene

/-- Drafts of a class with a value, which asks for properties, and of an abstract class with two
properties that are kept in instances of it. The first has another type. -/
def badgeDrafts : List ClassDraft :=
  [{ name := "Badge.Pin"
     members := [.auto "Value" (.scalar (.integer .i32)), .receiver [.log .infoName],
       .defaultConstructor] },
   { name := "Badge.Card", isAbstract := true
     members := [.property (wrappedProperty "Number" 0),
       .property { World.forestProperty (.cls 0) with name := "Pin" },
       .constructor
         { params := [], isPublic := true, body := .routine [.log (.value (.ofBool true))] }] }]

/-- The world in which `Badge.Card` has been implemented. -/
def badge : World := asked badgeDrafts (.cls 1)

theorem badge_arises : badge.Arises := by
  have hdeclare : CanDeclare {} badgeDrafts := by decide +kernel
  exact asked_arises hdeclare (by decide) (by decide) (by decide +kernel) (.cls 1)

/-- When a card is created, the pin that keeps its number is told the property, with the type that is
declared. -/
theorem properties_told_badge : ∃ x w, badge.descriptors[0]? = some x ∧
    (∀ depth, 6 ≤ depth → Run.create depth x none badge = (.ok (.created 0), w)) ∧
    ∃ (b : World) (k : Nat) (target : ObjectId) (r : Routine),
      b.Tells 0 ⟨"_Number", k, .scalar (.integer .i32), "Number"⟩ target r := by
  obtain ⟨registry, x, hr, hc, hx, -, -⟩ := exists_published (w := badge) (r := 0) (t := .cls 1)
    (e := 0) (p := .cls 2) (by decide +kernel) (by decide +kernel)
  obtain ⟨w, hcreate, -⟩ := World.create_leaves_of_depth none 6 (.created 0) (fun _ => true)
    (by decide +kernel) hx
  obtain ⟨d, slots, -, -, howned, hplans, hcreations⟩ :=
    World.properties_told badge_arises hr hc hx (by decide +kernel)
  have hnone : ∀ k ∈ (none : Option CarrierId), (Value.carrier k).Known badge.heap :=
    fun _ hk => nomatch hk
  obtain ⟨act, -, ctor, hctor, p, n, w₁, args, ms, hp, -, hitinerary, -, htold⟩ :=
    hcreations none 6 0 w hnone (hcreate 6 (Nat.le_refl 6))
  have hnumber : registry.provider.Chooses badge.schema (.cls 1) (wrappedProperty "Number" 0) (.cls 0)
      (some cofferValue) := by
    have hfirst : Provider.attributes.overrides (.cls 1) (wrappedProperty "Number" 0) =
      [] ++ .cls 0 :: [] := rfl
    rw [provider_asked hr]
    exact .replaced hfirst (fun _ hu => nomatch hu) (by decide +kernel)
  have howns : registry.provider.owns badge.schema (.cls 0) = true := by
    rw [provider_asked hr]
    decide +kernel
  have hdeclared : wrappedProperty "Number" 0 ∈ badge.schema.abstractProperties (.cls 1) := by
    exact Schema.mem_abstractProperties.mpr ⟨⟨.cls 1, .head _⟩, rfl⟩
  obtain ⟨k, hk, hown⟩ := howned _ hdeclared _ _ hnumber howns
  obtain ⟨p', hp', -, -, hinfos, -⟩ := hplans ctor hctor
  obtain rfl := ConstructorBody.plan.inj (hp'.symm.trans hp)
  have hinfo := (hinfos _).mpr ⟨_, _, k, hk, hown, by decide +kernel, rfl⟩
  have hagenda : Errand.inform _ ∈ p'.agenda :=
    List.mem_append_right _ (List.mem_append_left _ (List.mem_map_of_mem hinfo))
  obtain ⟨es, es', hsplit⟩ := List.append_of_mem hagenda
  rw [hsplit] at hitinerary
  obtain ⟨ms₁, m, ms₂, b, -, rfl, -, hbegins, -, -⟩ := hitinerary.split
  cases hbegins
  obtain ⟨target, r, htells⟩ := htold _ _ _ (List.mem_append_right _ List.mem_cons_self)
  exact ⟨x, w, hx, hcreate, b, k, target, r, htells⟩

end Scene

end RecordForge
