import RecordForge.Proofs.Construction.Notes

/-!
# The bodies that a run performs

A run performs bodies of users: constructors, accessors and receivers, and what they call in turn.
A *trail* lists them in the order of time, each with what it may refer to. There is a trail for each
construct of the language of bodies. It follows the run of the construct: what comes after a part is
listed as far as that part has come to an end (`Run.following`).

The trails of calls are tied to those of bodies in the way that calls are tied to bodies: `Trails.nested`
has the bodies that calls perform down to a depth. Whatever body is met in the course of an act is in
its trail (`Situation.Meets.mem_trail`).
-/

namespace RecordForge

open Run

/-- A body of a user is run. -/
structure Performance where
  frame : Frame
  body : Routine

/-- The bodies that calls perform. -/
structure Trails where
  read : ObjectId → String → World → List Performance
  write : ObjectId → String → Value → World → List Performance
  construct : Ty → Nat → List Value → World → List Performance
  chain : Ty → Nat → ObjectId → List Value → World → List Performance

/-! ## Routines -/

section
variable (c : Calls) (s : Trails) (f : Frame)

mutual

/-- The bodies that are performed for the value of a term. -/
def Term.trail : Term → World → List Performance
  | .property name => following (thisObject f) fun o => s.read o name
  | .propertyOf target name => fun w => target.trail w ++
    following (target.eval c f) (fun v => following (object v) fun o => s.read o name) w
  | .construct (some t) k args => fun w => Term.trailAll args w ++
    following (Term.evalAll c f args) (fun values => s.construct t k values) w
  | .construct none k args => following (classAtHand f) fun t w => Term.trailAll args w ++
    following (Term.evalAll c f args) (fun values => s.construct t k values) w
  | _ => fun _ => []

/-- The bodies that are performed for the values of terms. -/
def Term.trailAll : List Term → World → List Performance
  | [] => fun _ => []
  | t :: ts => fun w => t.trail w ++ following (t.eval c f) (fun _ => Term.trailAll ts) w

end

/-- The bodies that a step of a routine performs. -/
def Action.trail : Action → World → List Performance
  | .setField _ t => t.trail c s f
  | .setProperty name t => fun w => t.trail c s f w ++
    following (t.eval c f) (fun v => following (thisObject f) fun o => s.write o name v) w
  | .setPropertyOf target name t => fun w => target.trail c s f w ++
    following (target.eval c f) (fun u => following (object u) fun o w => t.trail c s f w ++
      following (t.eval c f) (fun v => s.write o name v) w) w
  | .log t => t.trail c s f
  | .chain type k args => fun w => Term.trailAll c s f args w ++
    following (Term.evalAll c f args) (fun values => following (thisObject f) fun o =>
      s.chain type k o values) w
  | .setParameters index values =>
    match f.carrier? index with
    | none => fun _ => []
    | some _ => values.elim (fun _ => []) (Term.trailAll c s f)
  | _ => fun _ => []

/-- The bodies that the steps of a routine perform. -/
def Routine.steps : Routine → World → List Performance
  | [] => fun _ => []
  | .give t :: _ => t.trail c s f
  | a :: rest => fun w => a.trail c s f w ++
    following (a.perform c f) (fun _ => Routine.steps rest) w

/-- A routine is performed, and what it calls. -/
def Routine.trail (r : Routine) (w : World) : List Performance := ⟨f, r⟩ :: r.steps c s f w

end

/-! ## Accessors -/

section
variable (c : Calls) (s : Trails)

/-- The bodies that are performed when a member is read. -/
def ValueMember.readTrail (m : ValueMember) (v : Value) : World → List Performance :=
  following (m.holder v) fun o =>
    match m.place with
    | .field _ => fun _ => []
    | .property .. => s.read o m.name

/-- The bodies that are performed when a member is written. -/
def ValueMember.writeTrail (m : ValueMember) (v new : Value) : World → List Performance :=
  following (m.holder v) fun o =>
    match m.place with
    | .field _ => fun _ => []
    | .property .. => s.write o m.name new

/-- The bodies that a getter performs. -/
def Getter.trail (o : ObjectId) : Getter → World → List Performance
  | .routine body => body.trail c s { this := some o }
  | .through i member _ => following (check (·.field o i)) fun v => member.readTrail s v
  | _ => fun _ => []

/-- The bodies that a setter performs. -/
def Setter.trail (o : ObjectId) (v : Value) : Setter → World → List Performance
  | .routine body => body.trail c s { this := some o, args := [v] }
  | .through i member type => following (cast v type) fun v =>
    following (check (·.field o i)) fun holder => member.writeTrail s holder v
  | _ => fun _ => []

/-! ## Plans -/

/-- The bodies that a creation performs, with a carrier if one is given. -/
def Descriptor.trail (x : Descriptor) : Option CarrierId → World → List Performance
  | none => x.defaultConstructor.elim (fun _ => []) fun k => s.construct x.product k []
  | some carrier => x.factoryConstructor.elim (fun _ => []) fun k =>
    s.construct x.product k (x.given carrier)

/-- The bodies that are performed to make the value of a field. -/
def BuildStep.trail (step : BuildStep) (cs : Carriers) : World → List Performance :=
  match step.source with
  | .lookup l source => following (resolve l) fun x => following (cs.take source) fun r w =>
    x.trail s (some r.1) (w.hold r.1 step.parameters)
  | .direct target k args => following (Operand.loadAll step.parameters args) fun values =>
    s.construct target k values
  | .withCarrier target k source => following (cs.take source) fun r w =>
    s.construct target k [.carrier r.1] (w.hold r.1 step.parameters)

/-- The bodies that are performed to build fields of an object. -/
def BuildStep.trailAll (o : ObjectId) : List BuildStep → Carriers → World → List Performance
  | [], _ => fun _ => []
  | step :: steps, cs => fun w => step.trail s cs w ++
    following (step.run c o cs) (fun cs => trailAll o steps cs) w

/-- The bodies that are performed to tell the value of a field its property. -/
def InfoStep.trail (o : ObjectId) (i : InfoStep) : World → List Performance :=
  following (check (·.field o i.slot)) fun
    | .object target => following (ask fun w => w.schema.receiver? (w.classOf target)) fun
      | some body =>
        body.trail c s { this := some target, info := some ⟨o, i.propertyType, i.property⟩ }
      | none => fun _ => []
    | _ => fun _ => []

/-- The bodies that are performed to tell the values of fields their properties. -/
def InfoStep.trailAll (o : ObjectId) : List InfoStep → World → List Performance
  | [] => fun _ => []
  | i :: is => fun w => i.trail c s o w ++ following (i.run c o) (fun _ => trailAll o is) w

/-- The bodies that the constructor of an abstract class performs. -/
def BaseCall.trail (o : ObjectId) (b : BaseCall) (cs : Carriers) : World → List Performance :=
  following (b.arguments cs) fun values => s.chain b.target b.constructor o values

/-- The bodies that a plan performs. -/
def ConstructionPlan.trail (o : ObjectId) (args : List Value) (p : ConstructionPlan) (w : World) :
    List Performance :=
  BuildStep.trailAll c s o p.steps (p.carriers args) w ++
    following (BuildStep.runAll c o p.steps (p.carriers args)) (fun cs w =>
      InfoStep.trailAll c s o p.infos w ++
        following (p.infos.forM (InfoStep.run c o)) (fun _ =>
          p.base.elim (fun _ => []) fun b => b.trail s o cs) w) w

/-- The bodies that a constructor performs. -/
def ConstructorBody.trail (o : ObjectId) (args : List Value) :
    ConstructorBody → World → List Performance
  | .routine body => body.trail c s { this := some o, args }
  | .chain (some (base, k)) => s.chain base k o []
  | .plan p => p.trail c s o args
  | _ => fun _ => []

end

/-! ## Calls -/

/-- Creating an object is entering a constructor and running it. -/
theorem Calls.constructStep_eq (c : Calls) (t : Ty) (k : Nat) (args : List Value) :
    c.constructStep t k args = TracedCalls.enter t k args.length >>= fun r =>
      r.2.body.run c r.1 args >>= fun _ => pure r.1 := by
  rw [constructStep, TracedCalls.enter, bind_assoc]
  refine bind_congr fun w => ?_
  split
  · rfl
  · rw [bind_assoc]
    refine bind_congr fun decl => ?_
    cases w.newObject t with
    | none => rfl
    | some ow => rfl

namespace Trails

/-- The bodies that calls perform down to a depth. -/
def nested : Nat → Trails
  | 0 =>
    { read := fun _ _ _ => []
      write := fun _ _ _ _ => []
      construct := fun _ _ _ _ => []
      chain := fun _ _ _ _ _ => [] }
  | depth + 1 =>
    { read := fun o name => following (check fun w => w.schema.getterFor (w.classOf o) name)
        fun getter => getter.trail (Calls.nested depth) (nested depth) o
      write := fun o name v => following (check fun w => w.schema.setterFor (w.classOf o) name)
        fun setter => setter.trail (Calls.nested depth) (nested depth) o v
      construct := fun t k args => following (TracedCalls.enter t k args.length)
        fun r => r.2.body.trail (Calls.nested depth) (nested depth) r.1 args
      chain := fun t k o args =>
        following (check fun w => w.schema.constructorFor t k args.length)
          fun decl => decl.body.trail (Calls.nested depth) (nested depth) o args }

end Trails

/-! ## Trails of acts -/

/-- The bodies that an act performs. -/
def Act.trail (c : Calls) (s : Trails) : Act → World → List Performance
  | .construct t k args => s.construct t k args
  | .chain t k o args => s.chain t k o args
  | .body o args b => b.trail c s o args
  | .build _ step cs => step.trail s cs
  | .inform o i => i.trail c s o
  | .perform f r => r.trail c s f

/-- The bodies that an act performs in its situation, with calls down to a depth. -/
def Situation.trail (depth : Nat) (m : Situation) : List Performance :=
  m.act.trail (Calls.nested depth) (Trails.nested depth) m.world

section
variable {c : Calls} {s : Trails} {o : ObjectId} {w w' : World}

/-- A field that is built after others. -/
theorem BuildStep.trail_subset {before after : List BuildStep} {step : BuildStep} {cs cs' : Carriers}
    (h : runAll c o before cs w = (.ok cs', w')) :
    step.trail s cs' w' ⊆ trailAll c s o (before ++ step :: after) cs w := by
  induction before generalizing cs w with
  | nil =>
    obtain ⟨rfl, rfl⟩ := pure_eq_ok_iff.mp h
    exact List.subset_append_left _ _
  | cons b before ih =>
    obtain ⟨cs₁, w₁, hb, hrest⟩ := bind_eq_ok_iff.mp h
    refine List.Subset.trans (ih hrest) ?_
    rw [List.cons_append, trailAll]
    simp only [following_of_ok hb]
    exact List.subset_append_right _ _

/-- A value that is told its property after others. -/
theorem InfoStep.trail_subset {before after : List InfoStep} {i : InfoStep}
    (h : before.forM (InfoStep.run c o) w = (.ok (), w')) :
    i.trail c s o w' ⊆ trailAll c s o (before ++ i :: after) w := by
  induction before generalizing w with
  | nil =>
    obtain ⟨-, rfl⟩ := pure_eq_ok_iff.mp h
    exact List.subset_append_left _ _
  | cons j before ih =>
    obtain ⟨_, w₁, hj, hrest⟩ := bind_eq_ok_iff.mp h
    refine List.Subset.trans (ih hrest) ?_
    rw [List.cons_append, trailAll]
    simp only [following_of_ok hj]
    exact List.subset_append_right _ _

/-- What a plan performs, part by part. -/
theorem ConstructionPlan.steps_subset_trail {args : List Value} (p : ConstructionPlan) :
    BuildStep.trailAll c s o p.steps (p.carriers args) w ⊆ p.trail c s o args w :=
  List.subset_append_left _ _

theorem ConstructionPlan.infos_subset_trail {p : ConstructionPlan} {args : List Value} {cs : Carriers}
    (h : BuildStep.runAll c o p.steps (p.carriers args) w = (.ok cs, w')) :
    InfoStep.trailAll c s o p.infos w' ⊆ p.trail c s o args w := by
  rw [trail, following_of_ok h]
  exact List.Subset.trans (List.subset_append_left _ _) (List.subset_append_right _ _)

theorem ConstructionPlan.base_subset_trail {p : ConstructionPlan} {args : List Value} {cs : Carriers}
    {w'' : World} {b : BaseCall} (hb : p.base = some b)
    (h : BuildStep.runAll c o p.steps (p.carriers args) w = (.ok cs, w'))
    (hi : p.infos.forM (InfoStep.run c o) w' = (.ok (), w'')) :
    b.trail s o cs w'' ⊆ p.trail c s o args w := by
  rw [trail, following_of_ok h, following_of_ok hi, hb]
  exact List.Subset.trans (List.subset_append_right _ _) (List.subset_append_right _ _)

end

/-- **What an act performs that is started, its starter performs**, with calls down to the same depth
or one level further. -/
theorem Situation.Starts.trail_subset {m m' : Situation} (h : m.Starts m') (hm : ∃ w, m.Ends w) :
    ∃ N d, ∀ n, N ≤ n → m'.trail n ⊆ m.trail (n + d) := by
  cases h with
  | @construct w w' t k args os decl o hd hn =>
    obtain ⟨w₁, N, hends⟩ := hm
    refine ⟨N, 1, fun n hle => ?_⟩
    obtain ⟨_, _, hrun, -⟩ := bind_eq_ok_iff.mp (hends (n + 1) (Nat.le_succ_of_le hle))
    have hstep : (Calls.nested n).constructStep t k args w = _ := hrun
    rw [Calls.constructStep_eq] at hstep
    obtain ⟨r, w₂, henter, -⟩ := bind_eq_ok_iff.mp hstep
    -- what the call enters is what the act starts
    obtain ⟨hd', hn'⟩ := TracedCalls.enter_eq_ok henter
    obtain rfl := Except.ok.inj (hd.symm.trans hd')
    obtain ⟨rfl, rfl⟩ := Prod.mk.inj (Option.some.inj (hn.symm.trans hn'))
    show _ ⊆ following (TracedCalls.enter t k args.length) _ w
    rw [following_of_ok henter]
    exact List.Subset.refl _
  | chain hd =>
    refine ⟨0, 1, fun n _ => ?_⟩
    show _ ⊆ following (check _) _ _
    rw [following_of_ok (check_of_ok hd)]
    exact List.Subset.refl _
  | routine => exact ⟨0, 0, fun n _ => List.Subset.refl _⟩
  | next => exact ⟨0, 0, fun n _ => List.Subset.refl _⟩
  | @build w w' o args p os before after step cs hp hrun =>
    obtain ⟨N, hrun⟩ := hrun
    refine ⟨N, 0, fun n hn => ?_⟩
    have hsteps : BuildStep.trailAll (Calls.nested n) (Trails.nested n) o p.steps (p.carriers args) w ⊆
        p.trail (Calls.nested n) (Trails.nested n) o args w := p.steps_subset_trail
    rw [hp] at hsteps
    exact List.Subset.trans (BuildStep.trail_subset (hrun n hn)) hsteps
  | @inform w w' w'' o args p os before after i cs hp hrun hi =>
    obtain ⟨N, hrun⟩ := hrun
    obtain ⟨N', hi⟩ := hi
    refine ⟨max N N', 0, fun n hn => ?_⟩
    have hinfos := ConstructionPlan.infos_subset_trail (s := Trails.nested n)
      (hrun n (Nat.le_trans (Nat.le_max_left _ _) hn))
    rw [hp] at hinfos
    exact List.Subset.trans (InfoStep.trail_subset (hi n (Nat.le_trans (Nat.le_max_right _ _) hn)))
      hinfos
  | @base w w' w'' w₃ o args values p os b cs hp hrun hi ha =>
    obtain ⟨N, hrun⟩ := hrun
    obtain ⟨N', hi⟩ := hi
    refine ⟨max N N', 0, fun n hn => ?_⟩
    have hbase := ConstructionPlan.base_subset_trail (s := Trails.nested n) hp
      (hrun n (Nat.le_trans (Nat.le_max_left _ _) hn)) (hi n (Nat.le_trans (Nat.le_max_right _ _) hn))
    rw [BaseCall.trail, following_of_ok ha] at hbase
    exact hbase
  | @direct w w' o step cs os t k operands values hs hl =>
    refine ⟨0, 0, fun n _ => ?_⟩
    show _ ⊆ step.trail (Trails.nested n) cs w
    rw [BuildStep.trail, hs]
    dsimp only
    rw [following_of_ok hl]
    exact List.Subset.refl _
  | @withCarrier w w' o step cs cs' os t k source carrier hs ht =>
    refine ⟨0, 0, fun n _ => ?_⟩
    show _ ⊆ step.trail (Trails.nested n) cs w
    rw [BuildStep.trail, hs]
    dsimp only
    rw [following_of_ok ht]
    exact List.Subset.refl _
  | @lookup w w' w'' o step cs cs' os l source carrier x k hs hr ht hk =>
    refine ⟨0, 0, fun n _ => ?_⟩
    show _ ⊆ step.trail (Trails.nested n) cs w
    rw [BuildStep.trail, hs]
    dsimp only
    rw [following_of_ok (resolve_eq_ok_iff.mpr hr), following_of_ok ht, Descriptor.trail, hk]
    exact List.Subset.refl _
  | @inform_receiver w o target i os r hf hr =>
    refine ⟨0, 0, fun n _ => ?_⟩
    show _ ⊆ i.trail (Calls.nested n) (Trails.nested n) o w
    rw [InfoStep.trail, following_of_ok (check_of_ok hf)]
    dsimp only
    rw [show ∀ f : Option Routine → World → List Performance,
      following (ask fun w => w.schema.receiver? (w.classOf target)) f w = f (some r) w from
        fun f => by rw [← hr]; rfl]
    exact List.Subset.refl _

/-- What is performed in the course of an act, if whatever is met ends. -/
theorem Situation.Meets.trail_subset {m m' : Situation} (hm : m.Meets m') (hs : m.Succeeds) :
    ∃ N d, ∀ n, N ≤ n → m'.trail n ⊆ m.trail (n + d) := by
  induction hm with
  | refl => exact ⟨0, 0, fun n _ => List.Subset.refl _⟩
  | @tail m₁ m₂ hm hstarts ih =>
    obtain ⟨N, d, hsubset⟩ := ih
    obtain ⟨N', d', hsubset'⟩ := hstarts.trail_subset (hs m₁ hm)
    -- levels add up along the starts
    refine ⟨max N N', d' + d, fun n hn => ?_⟩
    have hfirst := hsubset' n (Nat.le_trans (Nat.le_max_right N N') hn)
    have hrest := hsubset (n + d') (Nat.le_add_right_of_le (Nat.le_trans (Nat.le_max_left N N') hn))
    rw [← Nat.add_assoc]
    exact List.Subset.trans hfirst hrest

/-- **A body that is met in the course of an act is among those that the act performs.** -/
theorem Situation.Meets.mem_trail {m m' : Situation} (hm : m.Meets m') (hs : m.Succeeds) {f : Frame}
    {r : Routine} (hact : m'.act = .perform f r) : ∃ N, ∀ n, N ≤ n → ⟨f, r⟩ ∈ m.trail n := by
  obtain ⟨N, d, hsubset⟩ := hm.trail_subset hs
  refine ⟨N + d, fun n hn => ?_⟩
  have hbody : ⟨f, r⟩ ∈ m'.trail (n - d) := by
    rw [trail, hact]
    exact List.mem_cons_self
  have hmem := hsubset (n - d) (Nat.le_sub_of_add_le hn) hbody
  rwa [Nat.sub_add_cancel (Nat.le_trans (Nat.le_add_left d N) hn)] at hmem

end RecordForge
