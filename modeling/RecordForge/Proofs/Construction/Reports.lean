import RecordForge.Proofs.Construction.Accounts
import RecordForge.Proofs.Construction.Endings

/-!
# Failed creations are reported once

A creation through a descriptor gives a creation, whatever the bodies of users do, as long as they come
to an end. A fault or a panic of the constructor ends there: it becomes the outcome, and the listener
of the descriptor is told of it once. So what observers are told in the course of a creation is one
report for each creation in it that has failed, those of fields included, where it ended
(`World.creation_reported`). A step of an implementation that builds nothing has reported that
(`BuildStep.build_outcome`).
-/

namespace RecordForge

open Run Situation Descriptor

variable {w w' : World} {x : Descriptor} {given : Option CarrierId} {c : TracedCalls}

/-! ## Creations as traced runs -/

theorem Run.create_eq (depth : Nat) (x : Descriptor) (given : Option CarrierId) :
    Run.create depth x given = (x.tracedCreate (TracedCalls.nested depth) given).run := by
  rw [x.tracedCreate_run, TracedCalls.nested_run]
  cases given <;> rfl

namespace Descriptor

/-- A creation that is guarded ends with a note of what has come of it, and of its constructor. -/
theorem tracedGuarded_spec {k : Nat} {args : List Value} {r : Creation}
    (h : (x.tracedGuarded c k args).run w = (.ok r, w')) :
    (x.tracedGuarded c k args).notes w =
        (c.construct x.product k args).notes w ++ [.ended x (w'.schema.name x.type) r] ∧
      creationOf ((c.construct x.product k args).run w).1 = some r := by
  rw [tracedGuarded, Traced.run_bind, bind_run] at h
  have houtcome : (c.construct x.product k args).outcome.run w =
      (.ok ((c.construct x.product k args).run w).1, ((c.construct x.product k args).run w).2) :=
    outcome_run
  rw [tracedGuarded, Traced.notes_bind_of_ok houtcome]
  rw [houtcome] at h
  dsimp only at h
  cases hr : creationOf ((c.construct x.product k args).run w).1 with
  | none => rw [hr] at h; cases h
  | some r' =>
    rw [hr] at h
    dsimp only at h ⊢
    rw [conclude_run, end_inj, Except.ok.injEq] at h
    obtain ⟨rfl, rfl⟩ := h
    refine ⟨?_, rfl⟩
    cases r' <;> rfl

/-- So does every creation. -/
theorem tracedCreate_spec {r : Creation} (h : (x.tracedCreate c given).run w = (.ok r, w')) :
    (x.tracedCreate c given).notes w =
        ((x.creating given).elim [] fun act => (act.traced c).notes w) ++
          [.ended x (w'.schema.name x.type) r] := by
  cases given with
  | none =>
    rw [tracedCreate, creating] at *
    cases hk : x.defaultConstructor with
    | none =>
      rw [hk] at h
      obtain ⟨rfl, rfl⟩ := pure_eq_ok_iff.mp h
      rfl
    | some k =>
      rw [hk] at h
      rw [(tracedGuarded_spec h).1]
      exact congrArg (· ++ _) (Traced.notes_map _ _ w).symm
  | some carrier =>
    rw [tracedCreate, creating] at *
    cases hk : x.factoryConstructor with
    | none =>
      rw [hk] at h
      obtain ⟨rfl, rfl⟩ := pure_eq_ok_iff.mp h
      rfl
    | some k =>
      rw [hk] at h
      rw [(tracedGuarded_spec h).1]
      exact congrArg (· ++ _) (Traced.notes_map _ _ w).symm

end Descriptor

/-- What is created is of the class of the instances. -/
theorem Run.create_class {depth : Nat} {o : ObjectId}
    (h : Run.create depth x given w = (.ok (.created o), w')) :
    w.Grows w' ∧ w'.classOf o = x.product := by
  obtain ⟨k, args, -, hconstruct⟩ := create_created h
  exact construct_grows hconstruct

/-- A creation comes to an end, and gives a creation, if the bodies of users come to an end. -/
theorem World.Ready.create_ends (hw : w.Ready 0) {b : ClassId} (hx : x.product = .cls b)
    (hsettles : ∀ act ∈ x.creating given, Settles ⟨w, act, []⟩) :
    ∃ N creation w', ∀ depth, N ≤ depth → Run.create depth x given w = (.ok creation, w') := by
  rcases x.creating_cases given with ⟨-, hcreate⟩ | ⟨k, args, hact, hcreate⟩
  · exact ⟨0, .unavailable, w, fun depth _ => by rw [hcreate]; rfl⟩
  · obtain ⟨creation, w', N, h⟩ := guarded_ends (fun b _ => constructors_end b) hw hx
      (Nat.lt_succ_self b) (hsettles _ hact)
    exact ⟨N, creation, w', fun depth hdepth => by rw [hcreate]; exact h depth hdepth⟩

/-! ## Steps that create objects directly -/

/-- A run whose result does not matter halts as the run does. -/
theorem Run.discard_eq_error_iff {α : Type} {y : Run α} {e : Halt} :
    ((discard y : Run Unit) w).1 = .error e ↔ (y w).1 = .error e := by
  show ((y >>= fun _ => pure ⟨⟩ : Run Unit) w).1 = _ ↔ _
  rw [bind_run]
  rcases y w with ⟨e' | a, w'⟩
  · constructor <;> intro h <;> cases h <;> rfl
  · exact ⟨fun h => (nomatch h), fun h => (nomatch h)⟩

/-- The creation that has ended. -/
def Note.ended? : Note → Option (Descriptor × Creation)
  | .ended x _ r => some (x, r)
  | _ => none

/-- A run in which no creation ends. -/
def Traced.EndsNone {α : Type} (y : Traced α) : Prop :=
  ∀ w, (y.notes w).filterMap Note.ended? = []

namespace Traced

variable {α β : Type} {y : Traced α} {f : α → Traced β}

theorem EndsNone.pure (a : α) : EndsNone (Pure.pure a) := fun _ => rfl

theorem EndsNone.lift (y : Run α) : EndsNone (Traced.lift y) := by
  intro w
  rw [List.filterMap_eq_nil_iff]
  intro note hm
  obtain ⟨e, -, rfl⟩ := List.mem_map.mp hm
  rfl

theorem EndsNone.bind (hy : EndsNone y) (hf : ∀ a, EndsNone (f a)) : EndsNone (y >>= f) := by
  intro w
  rw [notes_bind, List.filterMap_append, hy, List.nil_append, following]
  split
  · exact hf _ _
  · rfl

/-- The creations that end in a sequence, if none ends in what follows. -/
theorem ended_bind (hf : ∀ a, EndsNone (f a)) (w : World) :
    ((y >>= f).notes w).filterMap Note.ended? = (y.notes w).filterMap Note.ended? := by
  have hlast : (following y.run (fun a => (f a).notes) w).filterMap Note.ended? = [] := by
    rw [following]
    split
    · exact hf _ _
    · rfl
  rw [notes_bind, List.filterMap_append, hlast, List.append_nil]

end Traced

/-- A step that creates an object directly ends no creation itself, and halts as its constructor
does: a fault of that is left to be reported further out. -/
theorem Situation.Starts.unreported {o : ObjectId} {step : BuildStep} {cs : Carriers}
    {os : List ObjectId} {m : Situation} (h : Starts ⟨w, .build o step cs, os⟩ m)
    (hs : step.source.target?.isSome = true) :
    ((Act.traced c (.build o step cs)).notes w).filterMap Note.ended? =
        ((m.act.traced c).notes m.world).filterMap Note.ended? ∧
      ∀ e, ((m.act.traced c).run m.world).1 = .error e →
        ((Act.traced c (.build o step cs)).run w).1 = .error e := by
  have hnotes : ((Act.traced c (.build o step cs)).notes w).filterMap Note.ended? =
      ((step.tracedBuild c cs).notes w).filterMap Note.ended? := by
    rw [Act.traced, Traced.notes_discard, BuildStep.traced]
    exact Traced.ended_bind (fun r => (Traced.EndsNone.lift _).bind fun _ => .pure _) w
  rw [hnotes]
  have hhalts : ∀ e, ((step.tracedBuild c cs).run w).1 = .error e →
      ((Act.traced c (.build o step cs)).run w).1 = .error e := fun e he =>
    discard_eq_error_iff.mpr (congrArg Prod.fst (bind_of_error (Prod.ext he rfl)))
  cases h with
  | @direct _ w' _ _ _ _ t k operands values hsource hl =>
    have hconstruct : ((c.construct t k values >>= fun o => pure (.object o, cs) :
        Traced (Value × Carriers)).notes w').filterMap Note.ended? =
          ((c.construct t k values).notes w').filterMap Note.ended? :=
      Traced.ended_bind (fun o => .pure _) w'
    refine ⟨?_, fun e he => hhalts e ?_⟩
    · simp only [BuildStep.tracedBuild, hsource]
      rw [Traced.notes_bind_of_ok hl, List.filterMap_append, hconstruct,
        (Traced.EndsNone.lift _) w, Act.traced, Traced.notes_discard, List.nil_append]
    · have he : ((c.construct t k values).run w').1 = .error e := discard_eq_error_iff.mp he
      simp only [BuildStep.tracedBuild, hsource, Traced.run_bind, Traced.run_lift, bind_of_ok hl]
      exact congrArg Prod.fst (bind_of_error (Prod.ext he rfl))
  | @withCarrier _ w' _ _ _ cs' _ t k source carrier hsource ht =>
    have hconstruct : ((Traced.withParameters carrier step.parameters
        (c.construct t k [.carrier carrier]) >>= fun o => pure (.object o, cs') :
          Traced (Value × Carriers)).notes w').filterMap Note.ended? =
        ((c.construct t k [.carrier carrier]).notes (w'.hold carrier step.parameters)).filterMap
          Note.ended? := by
      rw [Traced.ended_bind (fun o => .pure _) w', Traced.withParameters, List.filterMap_append]
      cases step.parameters <;> rfl
    refine ⟨?_, fun e he => hhalts e ?_⟩
    · simp only [BuildStep.tracedBuild, hsource]
      rw [Traced.notes_bind_of_ok ht, List.filterMap_append, hconstruct,
        (Traced.EndsNone.lift _) w, Act.traced, Traced.notes_discard, List.nil_append]
    · have he : ((c.construct t k [.carrier carrier]).run
          (w'.hold carrier step.parameters)).1 = .error e := discard_eq_error_iff.mp he
      have hheld : (withParameters carrier step.parameters
          (c.construct t k [.carrier carrier]).run w').1 = .error e := by
        rw [withParameters_run]
        exact he
      simp only [BuildStep.tracedBuild, hsource, Traced.run_bind, Traced.run_lift, bind_of_ok ht]
      exact congrArg Prod.fst (bind_of_error (Prod.ext hheld rfl))
  | lookup hsource =>
    rw [hsource] at hs
    cases hs

/-! ## What steps build -/

/-- The type that an event reports a failed creation of, by name. -/
def Event.failed? : Event → Option String
  | .failed name _ | .warned (.creationFailed name _) => some name
  | _ => none

theorem Descriptor.failed?_failure (x : Descriptor) (name : String) (f : Fault) :
    (x.failure name f).failed? = some name := by
  rw [failure]
  cases x.listener <;> rfl

/-- Between two worlds observers are told of a failed creation of a type. -/
def World.Announces (w : World) (name : String) (w' : World) : Prop :=
  ∃ es, w'.events = es ++ w.events ∧ ∃ e ∈ es, e.failed? = some name

theorem World.Announces.grow {w₁ w₂ : World} {name : String} (h : w₁.Announces name w₂)
    (hw : w.Grows w₁) (hw' : w₂.Grows w') : w.Announces name w' := by
  obtain ⟨es, hes, e, he, hname⟩ := h
  obtain ⟨before, hbefore⟩ := hw.events
  obtain ⟨after, hafter⟩ := hw'.events
  refine ⟨after ++ es ++ before, ?_, e, ?_, hname⟩
  · rw [← hafter, hes, ← hbefore, List.append_assoc, List.append_assoc]
  · exact List.mem_append_left before (List.mem_append_right after he)

/-- If a descriptor has a constructor and nothing is created, then that is reported. -/
theorem Run.createWith_announces {k : Nat} (hk : x.factoryConstructor = some k) {depth : Nat}
    {carrier : CarrierId} {creation : Creation}
    (h : x.createWith (Calls.nested depth) carrier w = (.ok creation, w'))
    (hnone : creation.object? = none) (hd : w.schema.Declares x.type) :
    w.Announces (w.schema.name x.type) w' := by
  rw [Descriptor.createWith, hk] at h
  rcases guarded_cases h with ⟨o, rfl, -⟩ | ⟨e, w₁, -, hconstruct, rfl⟩
  · cases hnone
  · have hargs : ∀ v ∈ x.given carrier, Regime.growing.Admits w v := fun _ _ => trivial
    have hgrows : w.Grows w₁ :=
      hconstruct ▸ ((Regime.growing.nested_lawful depth).construct x.product k trivial hargs).1
    have hname : w₁.schema.name x.type = w.schema.name x.type := Schema.name_eq hgrows.schema hd
    have htold : w₁.Announces (w.schema.name x.type)
        (w₁.observe (x.failure (w₁.schema.name x.type) e)) :=
      ⟨[_], rfl, _, List.mem_singleton.mpr rfl, hname ▸ x.failed?_failure _ e⟩
    exact htold.grow hgrows (.refl _)

/-- A step of an implementation builds an instance of an earlier class. Only a step that turns to a
descriptor may build none; then the creation has failed, and that is reported. -/
theorem BuildStep.build_outcome {c : ClassId} {step : BuildStep} {cs cs' : Carriers} {depth : Nat}
    {v : Value} (hp : w.Provides c step)
    (h : step.build (Calls.nested depth) cs w = (.ok (v, cs'), w')) :
    (∃ o b, v = .object o ∧ b < c ∧ w'.classOf o = .cls b) ∨
      v = .null ∧ step.source.target? = none ∧
        w.Announces (w.schema.name step.fieldType) w' := by
  obtain ⟨hdeclares, t, hfeasible, -⟩ := hp
  cases hfeasible with
  | direct hs hc =>
    obtain ⟨b, -, -, rfl, hlt, -⟩ := hc
    obtain ⟨o, rfl, hclass⟩ := build_direct hs h
    exact .inl ⟨o, b, rfl, hlt, hclass⟩
  | withCarrier hs hc =>
    obtain ⟨b, -, -, rfl, hlt, -⟩ := hc
    obtain ⟨o, rfl, hclass⟩ := build_withCarrier hs h
    exact .inl ⟨o, b, rfl, hlt, hclass⟩
  | @lookup l source x k hs hx _ honly hk _ hc hfits htype =>
    obtain ⟨b, d', -, rfl, hlt, hd', -⟩ := hc
    have hrun := h
    rw [build, hs] at hrun
    obtain ⟨x', w₁, hresolve, -⟩ := bind_eq_ok_iff.mp hrun
    have hresolve := resolve_eq_ok_iff.mp hresolve
    obtain rfl := honly hresolve
    have hproduct : w.schema.Declares x'.product := by
      rw [hx]
      exact Schema.declares_of_decl? (t := .cls b) hd'
    rcases build_lookup hs hresolve hx hproduct (by rw [hx]; exact hfits) h with
      ⟨o, rfl, hclass⟩ | ⟨rfl, carrier, w₁, w₂, creation, hfirst, hcreate, hlast, hnone⟩
    · exact .inl ⟨o, b, rfl, hlt, hclass.trans hx⟩
    · refine .inr ⟨rfl, by rw [hs]; rfl, ?_⟩
      rw [← htype] at hdeclares ⊢
      have htold := createWith_announces hk hcreate hnone (hdeclares.mono hfirst.schema)
      rw [Schema.name_eq hfirst.schema hdeclares] at htold
      exact htold.grow hfirst hlast

/-! ## Main result -/

/-- What holds of a creation that has come to an end. -/
structure Descriptor.Reported (x : Descriptor) (given : Option CarrierId) (depth : Nat) (w : World)
    (creation : Creation) (w' : World) : Prop where
  returns : Run.create depth x given w = (.ok creation, w')
  /-- If there is a constructor, the way in which it ends is what has come of the creation. -/
  ending : ∀ t k args, x.creating given = some (.construct t k args) →
    creationOf ((Calls.nested depth).construct t k args w).1 = some creation
  /-- That this creation has ended is noted last. -/
  last : ∃ inner, (x.tracedCreate (TracedCalls.nested depth) given).notes w =
    inner ++ [.ended x (w'.schema.name x.type) creation]
  /-- There is one report for each creation that has failed, when it ends, and no other. -/
  reports : w'.events = (((x.tracedCreate (TracedCalls.nested depth) given).notes w).flatMap
    Note.events).reverse ++ w.events
  others : ∀ event, .seen event ∈ (x.tracedCreate (TracedCalls.nested depth) given).notes w →
    event.isReport = false
  created : ∀ o, creation = .created o → w'.classOf o = x.product ∧ w'.isInstance o x.type = true

/-- A creation that has come to an end is reported. -/
theorem Descriptor.Reported.of_create {depth : Nat} {creation : Creation}
    (h : Run.create depth x given w = (.ok creation, w'))
    (hfits : w.schema.isAssignable x.product x.type = true) (hd : w.schema.Declares x.product) :
    x.Reported given depth w creation w' := by
  have htraced : (x.tracedCreate (TracedCalls.nested depth) given).run w = (.ok creation, w') := by
    rw [← create_eq, h]
  have haccounts := x.create_accounted (TracedCalls.nested_accounted depth) given w
  rw [htraced] at haccounts
  refine ⟨h, fun t k args hact => ?_, ⟨_, tracedCreate_spec htraced⟩, haccounts.events,
    haccounts.seen, fun o ho => ?_⟩
  · rcases x.creating_cases given with ⟨hnone, -⟩ | ⟨k', args', hact', hcreate⟩
    · rw [hnone] at hact
      cases hact
    · obtain ⟨rfl, rfl, rfl⟩ := Act.construct.inj (Option.some.inj (hact.symm.trans hact'))
      rw [hcreate, ← TracedCalls.nested_run, ← tracedGuarded_run] at h
      have hspec := (tracedGuarded_spec h).2
      rw [← TracedCalls.nested_run]
      exact hspec
  · subst ho
    obtain ⟨hgrows, hclass⟩ := create_class h
    refine ⟨hclass, ?_⟩
    rw [World.isInstance, hclass, Schema.isAssignable_eq hgrows.schema hd]
    exact hfits

/-- **Failed creations are contained, and reported once.** In a world that comes about from nothing,
a creation through a published descriptor comes to an end and gives a creation, whatever the bodies of
users do, provided that they come to an end. Observers are told of each failed creation in its course
where it ends, and of no other; a step that creates an object directly ends no creation, and leaves a
fault of the constructor to the creation around it. -/
theorem World.creation_reported {told : List Served} (hruns : Scene.Runs {} told w.quiet)
    {r : RegistryId} {registry : Registry} (hr : w.registries[r]? = some registry) {t : Ty}
    {e : DescriptorId} (hc : registry.cached? t = some e) (hx : w.descriptors[e]? = some x)
    (given : Option CarrierId) (hsettles : ∀ act ∈ x.creating given, Settles ⟨w, act, []⟩) :
    (∃ N creation w', ∀ depth, N ≤ depth → x.Reported given depth w creation w') ∧
      ∀ (c : TracedCalls) (w₁ : World) o step cs os m, Starts ⟨w₁, .build o step cs, os⟩ m →
        step.source.target?.isSome = true →
        ((Act.traced c (.build o step cs)).notes w₁).filterMap Note.ended? =
            ((m.act.traced c).notes m.world).filterMap Note.ended? ∧
          ∀ e, ((m.act.traced c).run m.world).1 = .error e →
            ((Act.traced c (.build o step cs)).run w₁).1 = .error e := by
  refine ⟨?_, fun c w₁ o step cs os m hstart hs => hstart.unreported hs⟩
  have hsound : w.quiet.Sound := Scene.sound_of_runs hruns
  have hw : w.Ready 0 :=
    ⟨hsound, Scene.sorted_of_runs hruns, fun _ hb => absurd hb (Nat.not_lt_zero _), Nat.zero_le _⟩
  obtain ⟨⟨d, hd⟩, hfits⟩ : (∃ d, w.schema.decl? x.product = some d) ∧
      w.schema.isAssignable x.product x.type = true := by
    obtain ⟨h₀, -, hserves⟩ := (hsound.registries hr).serves_cached hc hx
    cases hserves with
    | concrete hd _ _ hx =>
      rw [hx]
      exact ⟨⟨_, hd⟩, by simp [Descriptor.concrete, Schema.isAssignable]⟩
    | implemented hd _ _ hi hp _ hx =>
      refine ⟨⟨_, hp⟩, ?_⟩
      rw [congrArg Descriptor.type hx]
      exact Implementation.isAssignable (by rw [hi.type, hd]; rfl) hp
  obtain ⟨b, hb, -⟩ := Schema.lt_size_of_decl? hd
  obtain ⟨N, creation, w', hcreate⟩ := hw.create_ends hb hsettles
  exact ⟨N, creation, w', fun depth hdepth =>
    .of_create (hcreate depth hdepth) hfits (Schema.declares_of_decl? hd)⟩

/-! ### A scene -/

namespace Scene

/-- Drafts of an abstract class whose constructor fails, and of one with a property of its type. -/
def millDrafts : List ClassDraft :=
  [{ name := "Mill.Gear", isAbstract := true
     members := [.constructor
       { params := [.carrier], isPublic := true, body := .routine [.throw "worn"] }] },
   { name := "Mill.Wheel", isAbstract := true
     members := [.property { World.forestProperty (.cls 0) with
       attributes := [.parameters [.ofBool true]] }, .defaultConstructor] }]

/-- The world in which `Mill.Wheel` has been implemented, and `Mill.Gear` with it. -/
def mill : World := asked millDrafts (.cls 1)

theorem mill_canDeclare : CanDeclare {} millDrafts := by decide +kernel

theorem mill_runs : ∃ told, Runs {} told mill.quiet :=
  asked_runs (opened_runs mill_canDeclare (by decide) (by decide)) (.cls 1)

/-- The bodies of users that are run when a `Mill.Wheel` is created come to an end. -/
theorem mill_settles : (mill.descriptors[1]?).all (fun x => (x.creating none).all fun act =>
    survey (Calls.nested 10) (fun _ => true) 12 ⟨mill, act, []⟩) = true := by
  decide +kernel

/-- The value of the field cannot be created, and observers are told so once; the instance is created
without it. -/
theorem creation_reported_mill :
    ∃ x N w, mill.descriptors[1]? = some x ∧
      (∀ depth, N ≤ depth → x.Reported none depth mill (.created 0) w) ∧
      (w.events.filter Event.isReport).length = 1 ∧ w.heap.field? 0 0 = some .null := by
  obtain ⟨told, hruns⟩ := mill_runs
  obtain ⟨registry, x, hr, hc, hx, -, -⟩ := exists_published (w := mill) (r := 0) (t := .cls 1)
    (e := 1) (p := .cls 3) (by decide +kernel) (by decide +kernel)
  have hsettles : ∀ act ∈ x.creating none, Settles ⟨mill, act, []⟩ := fun act hact =>
    settles_of_survey (World.all_creating mill_settles hx act hact)
  obtain ⟨⟨N, creation, w, hreported⟩, -⟩ :=
    World.creation_reported hruns hr hc hx none hsettles
  have hrun : (mill.descriptors[1]?).all (fun x =>
      let r := Run.create 10 x none mill
      r.1 = .ok (.created 0) ∧ (r.2.events.filter Event.isReport).length = 1 ∧
        r.2.heap.field? 0 0 = some .null) = true := by
    decide +kernel
  rw [hx, Option.all_some] at hrun
  obtain ⟨hcreated, hevents, hfield⟩ := of_decide_eq_true hrun
  have hdeeper := (hreported _ (Nat.le_max_left N 10)).returns
  rw [Run.create_deeper (Nat.le_max_right N 10) (by rw [hcreated]; exact fun he => nomatch he)]
    at hdeeper
  rw [hdeeper] at hcreated hevents hfield
  obtain rfl := Except.ok.inj hcreated
  exact ⟨x, N, w, hx, hreported, hevents, hfield⟩

end Scene

end RecordForge
