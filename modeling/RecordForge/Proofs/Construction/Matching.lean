import RecordForge.Proofs.Construction.Errands
import RecordForge.Proofs.Scene.Feeding
import RecordForge.Proofs.Layout.Origins
import RecordForge.Proofs.Twin.Registries

/-!
# Constructors that match construction parameters

If the class of an owned field has a constructor that takes values of exactly the types of the
construction parameters, then both constructors of the implementation have one step for the field, and
that runs the constructor with the parameters. An argument is kept in the step, or read from the
parameters by its position and checked against its own type; both give the parameter itself, in every
world from then on (`BuildStep.Feeds.passes`). So each creation runs the constructor once for the field,
with the same values and the same objects in the same order (`World.parameters_passed`).
-/

namespace RecordForge

open Run

/-! ## Arguments -/

/-- Arguments that give certain values one by one give them together. -/
theorem Operand.loadAll_of_forall₂ {w : World} {parameters : Option (List Value)} {args : List Operand}
    {vs : List Value} (h : List.Forall₂ (fun a v => a.load parameters w = (.ok v, w)) args vs) :
    loadAll parameters args w = (.ok vs, w) := by
  induction h with
  | nil => rfl
  | cons hv _ ih =>
    rw [loadAll, bind_of_ok hv, bind_of_ok ih]
    rfl

/-- The arguments for construction parameters give the parameters. -/
theorem FieldPlan.loadAll_operands {w : World} {h : Heap} (hg : h.Grows w.heap) (vs : List Value) :
    Operand.loadAll (some vs) (vs.zipIdx.map fun a => operand h a.2 a.1) w = (.ok vs, w) := by
  refine Operand.loadAll_of_forall₂ (List.forall₂_iff_get.mpr ⟨by simp, fun i hi hlt => ?_⟩)
  have hv : vs[i]? = some (vs.get ⟨i, hlt⟩) := List.getElem?_eq_getElem hlt
  simpa using operand_load (w := w) hv hg

/-! ## Steps -/

/-- A step runs a constructor of a class with certain values, and builds the new object. It starts
nothing else, and the body of the constructor is run on the object with the same values. -/
structure World.Passes (w : World) (step : BuildStep) (F : Ty) (k : Nat) (body : ConstructorBody)
    (vs : List Value) : Prop where
  loads : ∃ args, step.source = .direct F k args ∧ Operand.loadAll step.parameters args w = (.ok vs, w)
  builds : ∀ c cs, step.build c cs w = (c.construct F k vs >>= fun y => pure (.object y, cs)) w
  starts : ∀ o cs os m, Situation.Starts ⟨w, .build o step cs, os⟩ m ↔ m = ⟨w, .construct F k vs, os⟩
  runs : ∃ y w', w.newObject F = some (y, w') ∧
    ∀ os m, Situation.Starts ⟨w, .construct F k vs, os⟩ m ↔ m = ⟨w', .body y vs body, os⟩

/-- Running a constructor of a class makes an object and runs the body on it. -/
theorem World.construct_starts {w : World} {F : Ty} {d : ClassDecl} (hd : w.schema.decl? F = some d)
    {k : Nat} {vs : List Value} {ctor : ConstructorDecl}
    (hctor : w.schema.constructorFor F k vs.length = .ok ctor) :
    ∃ y w', w.newObject F = some (y, w') ∧
      ∀ os m, Situation.Starts ⟨w, .construct F k vs, os⟩ m ↔ m = ⟨w', .body y vs ctor.body, os⟩ := by
  obtain ⟨n, rfl, -⟩ := Schema.lt_size_of_decl? hd
  obtain ⟨⟨y, w'⟩, hnew⟩ : ∃ x, w.newObject (.cls n) = some x := by
    rw [newObject, show w.schema.class? n = some d from hd]
    exact ⟨_, rfl⟩
  refine ⟨y, w', hnew, fun os m => ⟨fun hm => ?_, fun hm => ?_⟩⟩
  · exact hm.unique (.construct hctor hnew) rfl
  · exact hm ▸ .construct hctor hnew

/-- **A step that feeds constructors** passes its parameters to the constructor that matches, in all
worlds from then on. -/
theorem BuildStep.Feeds.passes {w b : World} {step : BuildStep} {vs : List Value} {k : Nat}
    {ctor : ConstructorDecl} (hs : step.Feeds w.heap w.schema) (hg : w.Grows b)
    (ha : w.schema.isAbstract step.fieldType = false) (hvs : step.parameters = some vs)
    (hk : w.schema.findConstructor? step.fieldType (vs.map (Schema.typeOf w.heap)) = some (k, ctor)) :
    b.Passes step step.fieldType k ctor.body vs := by
  have hsource : step.source = .direct step.fieldType k
      (vs.zipIdx.map fun a => FieldPlan.operand w.heap a.2 a.1) := by
    refine hs.source ha hvs ?_
    rw [FieldPlan.matching?, hk]
    rfl
  have hload : Operand.loadAll step.parameters
      (vs.zipIdx.map fun a => FieldPlan.operand w.heap a.2 a.1) b = (.ok vs, b) := by
    rw [hvs]
    exact FieldPlan.loadAll_operands hg.heap vs
  obtain ⟨d, hd⟩ := Option.isSome_iff_exists.mp hs.isClass
  have hdeclares := Schema.declares_of_decl? hd
  -- the class has the same constructors in the later schema
  have hfind := (Schema.findConstructor?_eq hg.schema hdeclares _).trans hk
  obtain ⟨hget, hparams⟩ := Schema.findConstructor?_eq_some hfind
  have hctor : b.schema.constructorFor step.fieldType k vs.length = .ok ctor :=
    Schema.constructorFor_eq_ok_iff.mpr ⟨hget, by rw [hparams, List.length_map]⟩
  refine ⟨⟨_, hsource, hload⟩, fun c cs => ?_, fun o cs os m => ⟨fun hm => ?_, fun hm => ?_⟩,
    World.construct_starts ((Schema.decl?_eq hg.schema hdeclares).trans hd) hctor⟩
  · rw [build, hsource]
    exact bind_of_ok hload
  · exact hm.unique (.direct hsource hload) rfl
  · exact hm ▸ .direct hsource hload

/-! ## Constructors -/

/-- In a scene that comes about, the constructors of a class differ in the types of their parameters. -/
theorem Scene.constructors_of_runs {S : Scene} {told : List Served} (hruns : Runs {} told S) (F : Ty) :
    ((S.world.schema.constructors F).map ConstructorDecl.params).Nodup := by
  rw [Schema.constructors]
  cases hd : S.world.schema.decl? F with
  | none => exact List.nodup_nil
  | some d =>
    obtain ⟨c, rfl, -⟩ := Schema.lt_size_of_decl? hd
    rcases traced_of_runs hruns c d hd with ⟨draft, hdrafted⟩ | ⟨r, registry, hr, hmakes⟩
    · exact (hdrafted.distinct hd).2.2.2
    · obtain ⟨_, _, _, i, _, -, -, -, -, -, -, rfl, -⟩ :=
        hmakes.spec ((sound_of_runs hruns).registries hr) hd
      -- one takes nothing, the other takes a carrier
      show List.Nodup [[], [Ty.carrier]]
      decide

/-- Then a constructor is the one that is found by the types of its parameters. -/
theorem Schema.findConstructor?_of_nodup {s : Schema} {F : Ty}
    (h : ((s.constructors F).map ConstructorDecl.params).Nodup) {k : Nat} {ctor : ConstructorDecl}
    (hk : (s.constructors F)[k]? = some ctor) : s.findConstructor? F ctor.params = some (k, ctor) := by
  have hmem : ctor ∈ s.constructors F := List.mem_of_getElem? hk
  obtain ⟨⟨k', ctor'⟩, hfind⟩ :=
    Option.isSome_iff_exists.mp (Schema.findConstructor?_isSome.mpr ⟨ctor, hmem, rfl⟩)
  obtain ⟨hk', hparams⟩ := Schema.findConstructor?_eq_some hfind
  -- what is found has the same parameters, so it is the same
  have hlt : k < ((s.constructors F).map ConstructorDecl.params).length := by
    rw [List.length_map]
    exact (List.getElem?_eq_some_iff.mp hk).1
  obtain rfl : k = k' := by
    refine (List.getElem?_inj hlt h).mp ?_
    rw [List.getElem?_map, List.getElem?_map, hk, hk', Option.map_some, Option.map_some, hparams]
  rw [hfind, Option.some.inj (hk'.symm.trans hk)]

/-! ## Plans with one step for a slot -/

/-- A plan has one step for a slot. -/
structure ConstructionPlan.Builds (p : ConstructionPlan) (j : Nat) (step : BuildStep) : Prop where
  slot : step.slot = j
  only : ∃ before after, p.steps = before ++ step :: after ∧ ∀ s ∈ before ++ after, s.slot ≠ j

/-- In an itinerary that ends, what builds a field does an errand. -/
theorem Itinerary.mem_of_build {c : Calls} {o o' : ObjectId} {os : List ObjectId} {w w' : World}
    {es : List Errand} {ms : List Situation} {m : Situation} {step : BuildStep} {cs : Carriers}
    (h : Itinerary c o os w es ms (.ok (), w')) (hm : m ∈ ms) (hact : m.act = .build o' step cs) :
    .build step ∈ es := by
  obtain ⟨⟨e, he, w₁, hbegins⟩, -⟩ := h.ends m hm
  cases hbegins with
  | build =>
    obtain ⟨-, rfl, -⟩ := Act.build.inj hact
    exact he
  | inform => cases hact
  | base => cases hact

namespace ConstructionPlan.Builds

variable {p : ConstructionPlan} {j : Nat} {step : BuildStep}

theorem mem (h : p.Builds j step) : step ∈ p.steps := by
  obtain ⟨before, after, hsteps, -⟩ := h.only
  exact hsteps ▸ List.mem_append_right before List.mem_cons_self

/-- No other step stores into the slot. -/
theorem eq_of_slot (h : p.Builds j step) {s : BuildStep} (hs : s ∈ p.steps) (hslot : s.slot = j) :
    s = step := by
  obtain ⟨before, after, hsteps, honly⟩ := h.only
  by_contra hne
  refine honly s ?_ hslot
  rw [hsteps] at hs
  simpa [hne] using hs

/-- A plan that is run to the end has taken the step for the slot, and no other. -/
theorem split_itinerary (h : p.Builds j step) {c : Calls} {o : ObjectId} {os : List ObjectId}
    {w w' : World} {ms : List Situation} (hi : Itinerary c o os w p.agenda ms (.ok (), w')) :
    ∃ before b cs after, ms = before ++ ⟨b, .build o step cs, o :: os⟩ :: after ∧
      (∀ a ∈ before ++ after, ∀ o' s cs', a.act = .build o' s cs' → s.slot ≠ j) ∧
      ∃ b', (Act.build o step cs).run c b = (.ok (), b') := by
  obtain ⟨before, after, hsteps, honly⟩ := h.only
  have hagenda : p.agenda = before.map .build ++ .build step ::
      (after.map .build ++ (p.infos.map .inform ++ p.base.toList.map .base)) := by
    rw [agenda, hsteps, List.map_append, List.map_cons, List.append_assoc, List.cons_append]
  rw [hagenda] at hi
  obtain ⟨ms₁, m, ms₂, b, b', rfl, hfirst, hbegins, hdone, hlast⟩ := hi.split
  cases hbegins with
  | @build _ cs =>
    -- the errands before and after are those of the other steps, and such that build nothing
    refine ⟨ms₁, b, cs, ms₂, rfl, fun a ha o' s cs' hact => honly s ?_, b', hdone⟩
    rcases List.mem_append.mp ha with ha | ha
    · have hmem := hfirst.mem_of_build ha hact
      exact List.mem_append_left after (by simpa using hmem)
    · have hmem := hlast.mem_of_build ha hact
      exact List.mem_append_right before (by simpa using hmem)

end ConstructionPlan.Builds

/-! ## Fields -/

section
variable {w : Workshop} {S : Schema} {cache : List (Ty × DescriptorId)} {σ : Session} {t : Ty}
variable {base : ClassDecl} {i : Implementation} {f : ForgedProperty} {plan : FieldPlan}

/-- The plans of an implementation have one step for an owned field, with the parameters of the
property. -/
theorem Implementation.Realizes.exists_builds (hi : i.Realizes w S cache σ t base)
    (hf : f ∈ i.properties) (hfp : f.plan = some plan) {ctor : ConstructorDecl}
    (hctor : ctor ∈ (i.decl S).constructors) : ∃ p step, ctor.body = .plan p ∧
      p.Builds f.field.slot step ∧ step.fieldType = f.field.fieldType ∧
        step.parameters = f.field.parameters := by
  obtain ⟨p, hp, hslots⟩ := hi.steps_slots hctor
  obtain ⟨source, hstep, -⟩ := hi.exists_step hf hfp hctor hp
  obtain ⟨before, after, hsteps⟩ := List.append_of_mem hstep
  have hnodup : (p.steps.map BuildStep.slot).Nodup := by
    rw [hslots]
    exact hi.owned_spec.1.imp Nat.ne_of_lt
  refine ⟨p, _, hp, ⟨rfl, before, after, hsteps, fun s hs he => ?_⟩, rfl, rfl⟩
  rw [hsteps, List.map_append, List.map_cons] at hnodup
  obtain ⟨hnot, -⟩ := List.nodup_cons.mp (List.nodup_middle.mp hnodup)
  rw [← List.map_append] at hnot
  refine hnot ?_
  rw [show (f.field.step source).slot = s.slot from he.symm]
  exact List.mem_map_of_mem hs

end

/-! ## Creations -/

/-- What creates an instance runs the body of one of the constructors of its class. -/
theorem World.body_of_creating {w w₁ : World} {x : Descriptor} {d : ClassDecl} {given : Option CarrierId}
    {act : Act} {o : ObjectId} {args : List Value} {body : ConstructorBody} {os : List ObjectId}
    (hd : w.schema.decl? x.product = some d) (hact : act ∈ x.creating given)
    (h : Situation.Starts ⟨w, act, []⟩ ⟨w₁, .body o args body, os⟩) :
    ∃ c ∈ d.constructors, c.body = body := by
  rcases x.creating_cases given with ⟨hnone, -⟩ | ⟨k, values, hsome, -⟩
  · cases hnone.symm.trans hact
  · obtain rfl := Option.some.inj (hsome.symm.trans hact)
    cases h with
    | construct hfor hnew =>
      have hget := (Schema.constructorFor_eq_ok_iff.mp hfor).1
      rw [Schema.constructors, hd] at hget
      exact ⟨_, List.mem_of_getElem? hget, rfl⟩

/-- A plan builds its fields by its steps. -/
theorem ConstructionPlan.mem_of_starts {w₁ b : World} {o o' : ObjectId} {args : List Value}
    {p : ConstructionPlan} {os os' : List ObjectId} {step : BuildStep} {cs : Carriers}
    (h : Situation.Starts ⟨w₁, .body o args (.plan p), os⟩ ⟨b, .build o' step cs, os'⟩) :
    step ∈ p.steps := by
  cases h with
  | build hp => exact hp ▸ List.mem_append_right _ List.mem_cons_self

/-- The constructors of a class have one step for a slot, which passes values to a constructor of another
class in all worlds from one on. -/
def World.PassesAt (w : World) (d : ClassDecl) (j : Nat) (F : Ty) (k : Nat) (body : ConstructorBody)
    (vs : List Value) : Prop :=
  ∀ c ∈ d.constructors, ∃ p step, c.body = .plan p ∧ p.Builds j step ∧
    ∀ b, w.Grows b → b.Passes step F k body vs

namespace World.PassesAt

variable {w w' w₁ : World} {d : ClassDecl} {j k : Nat} {F : Ty} {body body' : ConstructorBody}
variable {vs args : List Value} {x : Descriptor} {given : Option CarrierId} {act : Act} {o : ObjectId}

/-- A creation from then on runs a plan, and the step for the slot passes the values. -/
theorem of_creating (h : w.PassesAt d j F k body vs) (hd : w.schema.decl? x.product = some d)
    (hg : w.Grows w') (hact : act ∈ x.creating given)
    (hstarts : Situation.Starts ⟨w', act, []⟩ ⟨w₁, .body o args body', []⟩) :
    ∃ c ∈ d.constructors, ∃ p, c.body = .plan p ∧ body' = .plan p ∧ ∀ b o' s cs os,
      Situation.Starts ⟨w₁, .body o args (.plan p), []⟩ ⟨b, .build o' s cs, os⟩ → s.slot = j →
        b.Passes s F k body vs := by
  have hd' : w'.schema.decl? x.product = some d := by
    rw [Schema.decl?_eq hg.schema (Schema.declares_of_decl? hd), hd]
  obtain ⟨c, hctor, rfl⟩ := body_of_creating hd' hact hstarts
  obtain ⟨p, step, hp, hone, hpasses⟩ := h c hctor
  rw [hp] at hstarts
  refine ⟨c, hctor, p, hp, hp, fun b o' s cs os hbuilds hslot => ?_⟩
  -- the world has only grown up to the errand
  have hgrows : w'.Grows b := (hstarts.leads (G := .growing) (fun _ _ => trivial) trivial).trans
    (hbuilds.leads (G := .growing) (fun _ _ => trivial) trivial)
  rw [hone.eq_of_slot (p.mem_of_starts hbuilds) hslot]
  exact hpasses b (hg.trans hgrows)

/-- A plan that has been run to the end on a new instance has created an object with the values. -/
theorem of_assembles {c : ClassId} {p : ConstructionPlan} {n : Nat} (h : w.PassesAt d j F k body vs)
    (hd : w.schema.decl? x.product = some d) (hact : act ∈ x.creating given)
    (ha : w.Assembles c d act o p n w₁ args w') : ∃ before b step cs after y b₁,
      Itinerary (Calls.nested n) o [] w₁ p.agenda
        (before ++ ⟨b, .build o step cs, [o]⟩ :: after) (.ok (), w') ∧
      step.slot = j ∧
      (∀ a ∈ before ++ after, ∀ o' s cs', a.act = .build o' s cs' → s.slot ≠ j) ∧
      b.Passes step F k body vs ∧
      (Calls.nested n).construct F k vs b = (.ok y, b₁) ∧ b₁.classOf y = F := by
  obtain ⟨ctor, hctor, hp⟩ := ha.plan
  obtain ⟨p', step, hp', hone, -⟩ := h ctor hctor
  obtain rfl := ConstructorBody.plan.inj (hp'.symm.trans hp)
  have hitinerary := p'.itinerary (Calls.nested n) o [] args w₁
  rw [ha.run] at hitinerary
  obtain ⟨before, b, cs, after, hms, hothers, b', hdone⟩ := hone.split_itinerary hitinerary
  rw [hms] at hitinerary
  have hstarts : Situation.Starts ⟨w₁, .body o args (.plan p'), []⟩ ⟨b, .build o step cs, [o]⟩ := by
    refine Situation.starts_of_mem_next (n := n) ?_
    show _ ∈ Situation.planned _ _ _ _ _ _
    rw [hms]
    exact List.mem_append_right before List.mem_cons_self
  obtain ⟨-, -, p, -, hbody, hpasses⟩ := h.of_creating hd (.refl w) hact ha.starts
  obtain rfl := ConstructorBody.plan.inj hbody
  have hpass := hpasses b o step cs [o] hstarts hone.slot
  -- the step has run the constructor, and that has returned
  obtain ⟨cs', b₁, hstep, -⟩ := bind_eq_ok_iff.mp hdone
  obtain ⟨v, b₂, hbuild, -⟩ := step_eq_ok_iff.mp hstep
  rw [hpass.builds] at hbuild
  obtain ⟨y, b₃, hconstruct, -⟩ := bind_eq_ok_iff.mp hbuild
  exact ⟨before, b, step, cs, after, y, b₃, hitinerary, hone.slot, hothers, hpass, hconstruct,
    (construct_grows hconstruct).2⟩

end World.PassesAt

/-! ## Main result -/

namespace World

/-- **Construction parameters are passed** to the constructor that matches. In a world that has come
about from nothing, an abstract class has a descriptor. One of its abstract properties has construction
parameters, and its field is of a mapped class that is shared by reference, is not abstract, and has a
constructor that takes values of exactly the types of the parameters. Then each constructor of the
implementation has one step for the field, and in all worlds from then on that step runs the constructor
with the parameters.

A creation from then on runs a plan, which does its errands in order, each once, and none after one that
halts; when it gets to the field, it passes the parameters. If an instance is created then all errands
have been done, and the one for the field has created an object, with the parameters. -/
theorem parameters_passed {w : World} (harises : w.Arises) {reg : RegistryId} {registry : Registry}
    (hr : w.registries[reg]? = some registry) {t : Ty} {e : DescriptorId} {x : Descriptor}
    (hc : registry.cached? t = some e) (hx : w.descriptors[e]? = some x)
    (ht : w.schema.isAbstract t = true) {q : PropertyDecl} (hq : q ∈ w.schema.abstractProperties t)
    {vs : List Value} (hvs : registry.provider.parameters t q = some vs) {F : Ty}
    {m : Option ValueMember} (hm : registry.provider.Chooses w.schema t q F m)
    (ho : registry.provider.owns w.schema F = true) (ha : w.schema.isAbstract F = false) {k : Nat}
    {ctor : ConstructorDecl} (hk : (w.schema.constructors F)[k]? = some ctor)
    (hparams : ctor.params = vs.map (Schema.typeOf w.heap)) :
    ∃ d j, w.schema.decl? x.product = some d ∧ d.OwnsField w.schema registry.provider t q F j ∧
      w.PassesAt d j F k ctor.body vs ∧
      (∀ w' given, w.Grows w' → ∀ act ∈ x.creating given, ∀ {w₁ o args body},
        Situation.Starts ⟨w', act, []⟩ ⟨w₁, .body o args body, []⟩ → ∃ p, body = .plan p ∧
          (∀ n, Itinerary (Calls.nested n) o [] w₁ p.agenda
            (Situation.planned (Calls.nested n) o [] args p w₁) (p.run (Calls.nested n) o args w₁)) ∧
          ∀ b o' s cs os, Situation.Starts ⟨w₁, .body o args body, []⟩ ⟨b, .build o' s cs, os⟩ →
            s.slot = j → b.Passes s F k ctor.body vs) ∧
      ∀ (given : Option CarrierId) depth o w', (∀ k ∈ given, (Value.carrier k).Known w.heap) →
        Run.create depth x given w = (.ok (.created o), w') →
          ∃ act ∈ x.creating given, ∃ p n w₁ args before b step cs after y b₁,
            Situation.Starts ⟨w, act, []⟩ ⟨w₁, .body o args (.plan p), []⟩ ∧
            Itinerary (Calls.nested n) o [] w₁ p.agenda
              (before ++ ⟨b, .build o step cs, [o]⟩ :: after) (.ok (), w') ∧
            step.slot = j ∧
            (∀ a ∈ before ++ after, ∀ o' s cs', a.act = .build o' s cs' → s.slot ≠ j) ∧
            b.Passes step F k ctor.body vs ∧
            (Calls.nested n).construct F k vs b = (.ok y, b₁) ∧ b₁.classOf y = F := by
  obtain ⟨base, i, h₀, report, n, hproduct, hi, hdesc, hw⟩ := harises.exists_implementation hr hc hx ht
  obtain ⟨told, hruns⟩ := harises.comes_about.1
  have hfeeds : (i.decl w.schema).Feeds w.heap w.schema :=
    Scene.feeds_of_runs hruns n _ hw.cls w.heap (.refl _)
  have hd : w.schema.decl? x.product = some (i.decl w.schema) := by
    rw [hproduct]
    exact hw.cls
  obtain ⟨f, hf, plan, hfp, rfl, rfl⟩ := hi.exists_planned hq hm ho
  have hparameters : f.field.parameters = some vs := (hi.parameters_eq hf).trans hvs
  have hfound := Schema.findConstructor?_of_nodup (Scene.constructors_of_runs hruns _) hk
  rw [hparams] at hfound
  -- each plan has one step for the field, and this feeds the constructor
  have hpasses : w.PassesAt (i.decl w.schema) f.field.slot f.field.fieldType k ctor.body vs := by
    intro c hctor
    obtain ⟨p, step, hp, hbuilds, htype, hgiven⟩ := hi.exists_builds hf hfp hctor
    refine ⟨p, step, hp, hbuilds, fun b hb => ?_⟩
    have hstep := hfeeds c hctor p hp step hbuilds.mem
    rw [← htype] at ha hfound ⊢
    exact hstep.passes hb ha (hgiven.trans hparameters) hfound
  refine ⟨i.decl w.schema, f.field.slot, hd, hi.ownsField hf hfp, hpasses, ?_, ?_⟩
  · intro w' given hg act hact w₁ o args body hstarts
    obtain ⟨c, -, p, -, rfl, hbuilds⟩ := hpasses.of_creating hd hg hact hstarts
    exact ⟨p, rfl, fun n => p.itinerary (Calls.nested n) o [] args w₁, hbuilds⟩
  · intro given depth o w' hgiven hrun
    obtain ⟨act, hact, p, n, w₁, args, hassembles⟩ := hw.exists_assembles hproduct hgiven hrun
    obtain ⟨before, b, step, cs, after, y, b₁, hbuilt⟩ := hpasses.of_assembles hd hact hassembles
    exact ⟨act, hact, p, n, w₁, args, before, b, step, cs, after, y, b₁, hassembles.starts, hbuilt⟩

end World

namespace Scene

/-- Drafts of a class, and of one whose constructor takes an object of that, a carrier, anything and a
scalar. -/
def keyDrafts : List ClassDraft :=
  [{ name := "Door.Key", members := [.defaultConstructor] },
   { name := "Door.Lock"
     members := [.constructor
       { params := [.cls 0, .carrier, .any, .scalar .bool], isPublic := true,
         body := .routine [.log (.argument 3)] }] }]

/-- The world in which a key and a carrier have been made. -/
def keyed : World :=
  let w := ((Calls.nested 2).construct (.cls 0) 0 [] { schema := addDrafts {} keyDrafts }).2
  { w with heap := w.heap.newCarrier.2 }

/-- Construction parameters of all sorts. -/
def doorParameters : List Value := [.object 0, .carrier 0, .null, .ofBool true]

/-- A property with these parameters. -/
def doorLock : PropertyDecl :=
  { World.forestProperty (.cls 1) with name := "Lock", attributes := [.parameters doorParameters] }

/-- A draft of an abstract class with this property, which is kept in an instance. -/
def doorDraft : ClassDraft :=
  { name := "Door.Door", isAbstract := true, members := [.property doorLock, .defaultConstructor] }

/-- The world in which `Door.Door` has been implemented. -/
def door : World :=
  World.request { keyed with schema := addDrafts keyed.schema [doorDraft]
                             registries := #[World.forestRegistry] } 0 (.cls 2)

theorem keyed_arises : keyed.Arises := by
  have hdeclare : CanDeclare {} keyDrafts := by decide +kernel
  have hdeclared := declare_arises .empty hdeclare (by decide +kernel)
  have hnone : ∀ v ∈ ([] : List Value), Regime.tidy.Admits { schema := addDrafts {} keyDrafts } v :=
    fun _ hv => absurd hv List.not_mem_nil
  exact (hdeclared.run ((Regime.tidy.nested_lawful 2).construct (.cls 0) 0 hdeclared.inv hnone)
    rfl).newCarrier

theorem door_arises : door.Arises := by
  have hoffence : keyed.schema.offence? doorDraft = none := by decide +kernel
  have hd : keyed.schema.declare doorDraft = .ok (2, addDrafts keyed.schema [doorDraft]) :=
    Schema.declare_eq_ok_iff.mpr ⟨hoffence, rfl⟩
  have hwritten : doorDraft.IsWritten := by decide +kernel
  have hdeclared := keyed_arises.declare hd hwritten (by decide +kernel) (fun _ _ hr => by cases hr)
    (by decide +kernel)
  have hfits : World.forestRegistry.provider.Fits
      { keyed with schema := addDrafts keyed.schema [doorDraft] } :=
    attributes_fits (by decide +kernel) (by decide +kernel)
  exact (hdeclared.openRegistry rfl rfl hfits).ask 0 (.cls 2)

/-- When a door is created, its lock is made of the key and the carrier, of null and of the scalar. -/
theorem parameters_passed_door : ∃ x w, door.descriptors[0]? = some x ∧
    (∀ depth, 8 ≤ depth → Run.create depth x none door = (.ok (.created 1), w)) ∧
    ∃ (b : World) (step : BuildStep) (body : ConstructorBody) (n : Nat) (y : ObjectId) (b₁ : World),
      b.Passes step (.cls 1) 0 body doorParameters ∧
        (Calls.nested n).construct (.cls 1) 0 doorParameters b = (.ok y, b₁) ∧
        b₁.classOf y = .cls 1 := by
  obtain ⟨registry, x, hr, hc, hx, -, -⟩ := exists_published (w := door) (r := 0) (t := .cls 2)
    (e := 0) (p := .cls 3) (by decide +kernel) (by decide +kernel)
  obtain ⟨w, hcreate, -⟩ := World.create_leaves_of_depth none 8 (.created 1) (fun _ => true)
    (by decide +kernel) hx
  have hprovider : (door.registries[0]?).all (fun registry =>
      decide (registry.provider.overrides (.cls 2) doorLock = []) &&
      decide (registry.provider.parameters (.cls 2) doorLock = some doorParameters) &&
      registry.provider.owns door.schema (.cls 1)) = true := by
    decide +kernel
  rw [hr, Option.all_some, Bool.and_eq_true, Bool.and_eq_true, decide_eq_true_eq,
    decide_eq_true_eq] at hprovider
  obtain ⟨⟨hoverrides, hparameters⟩, howns⟩ := hprovider
  have hlock : (door.schema.constructors (.cls 1))[0]?.map ConstructorDecl.params =
      some (doorParameters.map (Schema.typeOf door.heap)) := by
    decide +kernel
  obtain ⟨ctor, hctor, hparams⟩ := Option.map_eq_some_iff.mp hlock
  have hproperty : doorLock ∈ door.schema.abstractProperties (.cls 2) :=
    Schema.mem_abstractProperties.mpr ⟨⟨.cls 2, .head _⟩, rfl⟩
  obtain ⟨d, j, -, -, -, -, hcreations⟩ := World.parameters_passed door_arises hr hc hx
    (by decide +kernel) hproperty hparameters (.declared hoverrides) howns (by decide +kernel) hctor
    hparams
  have hnone : ∀ k ∈ (none : Option CarrierId), (Value.carrier k).Known door.heap :=
    fun _ hk => nomatch hk
  obtain ⟨-, -, -, n, -, -, -, b, step, -, -, y, b₁, -, -, -, -, hpasses, hconstruct, hclass⟩ :=
    hcreations none 8 1 w hnone (hcreate 8 (Nat.le_refl 8))
  exact ⟨x, w, hx, hcreate, b, step, ctor.body, n, y, b₁, hpasses, hconstruct, hclass⟩

/-- A property with one construction parameter. -/
def organProperty (name : String) (c : ClassId) : PropertyDecl :=
  { World.forestProperty (.cls c) with name, attributes := [.parameters [.ofBool true]] }

/-- Drafts of two classes with a constructor for that parameter, of which the first is held by value,
and of one that cannot be created. An abstract class has a property of the first class, and another has
one of the last and then one of the second. -/
def organDrafts : List ClassDraft :=
  let taking : MemberDraft := .constructor
    { params := [.scalar .bool], isPublic := true, body := .routine [.log (.argument 0)] }
  [{ name := "Organ.Key", isValueType := true, members := [taking, .defaultConstructor] },
   { name := "Organ.Pipe", members := [taking] },
   { name := "Organ.Bellows"
     members := [.constructor { params := [], isPublic := true, body := .routine [.throw "torn"] }] },
   { name := "Organ.Manual", isAbstract := true
     members := [.property (organProperty "Key" 0), .defaultConstructor] },
   { name := "Organ.Case", isAbstract := true
     members := [.property { World.forestProperty (.cls 2) with name := "Bellows" },
       .property (organProperty "Pipe" 1), .defaultConstructor] }]

/-- A registry that maps the class that is held by value, too. -/
def organRegistry : Registry :=
  { World.forestRegistry with provider := Provider.attributes.adjust { mapped := [.cls 0] } }

/-- The world in which both abstract classes have been implemented. -/
def organ : World :=
  let w : World := { schema := addDrafts {} organDrafts, registries := #[organRegistry] }
  (w.request 0 (.cls 3)).request 0 (.cls 4)

theorem organ_arises : organ.Arises := by
  have hdeclare : CanDeclare {} organDrafts := by decide +kernel
  have hfits : Provider.attributes.Fits { schema := addDrafts {} organDrafts } :=
    attributes_fits (by decide +kernel) (by decide +kernel)
  have hadjusted : organRegistry.provider.Fits { schema := addDrafts {} organDrafts } :=
    ⟨hfits.within, hfits.given⟩
  have hopened :=
    (declare_arises .empty hdeclare (by decide +kernel)).openRegistry rfl rfl hadjusted
  exact (hopened.ask 0 (.cls 3)).ask 0 (.cls 4)

/-- Whether an act creates an object of a class. -/
def creates (c : ClassId) : Act → Bool
  | .construct t _ _ => t == .cls c
  | _ => false

/-- A property has construction parameters that match the first constructor of its type, a mapped class
that is not abstract. -/
def Matched (w : World) (p : Provider) (t : Ty) (q : PropertyDecl) : Prop :=
  p.overrides t q = [] ∧ (w.schema.decl? q.type).any (p.isMapped q.type) = true ∧
    w.schema.isAbstract q.type = false ∧
      (w.schema.constructors q.type)[0]?.map ConstructorDecl.params =
        (p.parameters t q).map fun vs => vs.map (Schema.typeOf w.heap)

instance (w : World) (p : Provider) (t : Ty) (q : PropertyDecl) : Decidable (Matched w p t q) :=
  inferInstanceAs (Decidable (_ ∧ _))

/-- Not every constructor that matches is run. An object that is held by value is not created, and
nothing is created for a field if a field before could not be. -/
theorem organ_leaves_constructors : organ.Arises ∧ ∃ registry x y,
    organ.registries[0]? = some registry ∧
    registry.cached? (.cls 3) = some 0 ∧ organ.descriptors[0]? = some x ∧
    registry.cached? (.cls 4) = some 1 ∧ organ.descriptors[1]? = some y ∧
    (∀ a ∈ [(Ty.cls 3, organProperty "Key" 0), (.cls 4, organProperty "Pipe" 1)],
      a.2 ∈ organ.schema.abstractProperties a.1 ∧
      registry.provider.parameters a.1 a.2 = some [.ofBool true] ∧
      Matched organ registry.provider a.1 a.2) ∧
    (∀ depth, 4 ≤ depth → (Run.create depth x none organ).1 = .ok (.created 0) ∧
      (Run.create depth y none organ).1 = .ok (.failed (.thrown "torn"))) ∧
    (∀ act ∈ x.creating none, ∀ m, Situation.Meets ⟨organ, act, []⟩ m → creates 0 m.act = false) ∧
    ∀ act ∈ y.creating none, ∀ m, Situation.Meets ⟨organ, act, []⟩ m → creates 1 m.act = false := by
  obtain ⟨registry, x, hr, hc, hx, -, -⟩ := exists_published (w := organ) (r := 0) (t := .cls 3)
    (e := 0) (p := .cls 5) (by decide +kernel) (by decide +kernel)
  obtain ⟨registry', y, hr', hc', hy, -, -⟩ := exists_published (w := organ) (r := 0) (t := .cls 4)
    (e := 1) (p := .cls 6) (by decide +kernel) (by decide +kernel)
  obtain rfl := Option.some.inj (hr.symm.trans hr')
  have hfits : (organ.registries[0]?).all (fun registry =>
      [(Ty.cls 3, organProperty "Key" 0), (.cls 4, organProperty "Pipe" 1)].all fun a => decide
        (registry.provider.parameters a.1 a.2 = some [.ofBool true] ∧
          Matched organ registry.provider a.1 a.2)) = true := by
    decide +kernel
  rw [hr, Option.all_some, List.all_eq_true] at hfits
  have hcreated : ∀ depth, 4 ≤ depth → (Run.create depth x none organ).1 = .ok (.created 0) :=
    World.create_of_depth (by decide +kernel) hx
  have hfailed : ∀ depth, 4 ≤ depth →
      (Run.create depth y none organ).1 = .ok (.failed (.thrown "torn")) :=
    World.create_of_depth (by decide +kernel) hy
  -- all that a creation does is surveyed, and nothing of it creates an object of the class
  have hmeets : ∀ {e : DescriptorId} {z : Descriptor} {c : ClassId}, organ.descriptors[e]? = some z →
      (organ.descriptors[e]?).all (fun z => (z.creating none).all fun act =>
        Situation.survey (Calls.nested 8) (fun m => !creates c m.act) 8 ⟨organ, act, []⟩) = true →
      ∀ act ∈ z.creating none, ∀ m, Situation.Meets ⟨organ, act, []⟩ m → creates c m.act = false := by
    intro e z c hz hcheck act hact m hm
    have hnot := (Situation.survey_meets (World.all_creating hcheck hz act hact) hm).2
    simpa using hnot
  refine ⟨organ_arises, registry, x, y, hr, hc, hx, hc', hy,
    fun a ha => ⟨?_, of_decide_eq_true (hfits a ha)⟩,
    fun depth hdepth => ⟨hcreated depth hdepth, hfailed depth hdepth⟩,
    hmeets hx (by decide +kernel), hmeets hy (by decide +kernel)⟩
  rcases List.mem_pair.mp ha with rfl | rfl
  · exact Schema.mem_abstractProperties.mpr ⟨⟨.cls 3, .head _⟩, rfl⟩
  · exact Schema.mem_abstractProperties.mpr ⟨⟨.cls 4, .tail _ (.head _)⟩, rfl⟩

end Scene

end RecordForge
