import RecordForge.Proofs.Heap.Storage
import RecordForge.Proofs.Run.Regime

/-!
# All bodies keep to a regime

The built-in bodies: accessors, the creation of instances, and construction plans. At the end the
knot is tied: calls that may nest to some depth keep to a regime, whatever the depth.
-/

namespace RecordForge

open Run

/-- What a plan does from one of its steps on. -/
def ConstructionPlan.runFrom (c : Calls) (o : ObjectId) (p : ConstructionPlan)
    (steps : List BuildStep) (cs : Carriers) : Run Unit := do
  let cs ← BuildStep.runAll c o steps cs
  p.infos.forM (InfoStep.run c o)
  match p.base with
  | some b => b.run c o cs
  | none => return

/-- A slot is written if the heap can store there. Nothing but the heap changes. -/
theorem World.setField_eq_ok_iff {w w' : World} {o : ObjectId} {k : Nat} {v : Value} :
    w.setField o k v = .ok w' ↔
      ∃ heap, w.heap.store o k v = some heap ∧ w' = { w with heap } := by
  rw [setField]
  cases w.heap.store o k v with
  | none => simp
  | some heap => simp [eq_comm]

/-- A new object has the next number, is of its class, and has as many fields as the class. The rest
of the heap is as it was. -/
theorem World.newObject_spec {w w' : World} {t : Ty} {o : ObjectId}
    (h : w.newObject t = some (o, w')) :
    ∃ c d, t = .cls c ∧ w.schema.class? c = some d ∧ w' = { w with heap := w'.heap } ∧
      o = w.heap.objects.size ∧ w.heap.Adds (fun _ => True) w'.heap ∧
      ∃ i, w'.heap.object? o = some i ∧ i.shape = ⟨c, d.isValueType, d.layout.length⟩ := by
  cases t with
  | cls c =>
    obtain ⟨d, hd, he⟩ := Option.map_eq_some_iff.mp h
    obtain ⟨rfl, rfl⟩ := Prod.mk.inj he
    let blanks := d.layout.map FieldDecl.blank
    have hblanks : ∀ b ∈ blanks, b.All fun _ => True := fun b _ => b.all_true
    have hnew : w.heap.Adds (fun _ => True) (w.heap.allocate c d.isValueType blanks).2 ∧ _ :=
      Heap.allocate_adds trivial hblanks
    obtain ⟨hadds, ho, i, hi, hs⟩ := hnew
    rw [List.length_map] at hs
    exact ⟨c, d, rfl, hd, rfl, ho, hadds, i, ho ▸ hi, hs⟩
  | any => cases h
  | carrier => cases h
  | scalar k => cases h
  | enum e => cases h

theorem World.newObject_class {w w' : World} {t : Ty} {o : ObjectId}
    (h : w.newObject t = some (o, w')) : w'.classOf o = t ∧ w'.schema = w.schema := by
  obtain ⟨c, d, rfl, -, hw', -, -, i, hi, hshape⟩ := newObject_spec h
  refine ⟨?_, by rw [hw']⟩
  rw [classOf, Schema.classOf, hi]
  exact congrArg Ty.cls (congrArg Shape.cls hshape)

namespace Regime

variable {G : Regime} {α : Type} {w : World} {c : Calls} {o : ObjectId}

/-- A question, and what follows it. -/
theorem Keeps.ask_bind {β : Type} {q : World → α} {f : α → Run β} {R : World → β → Prop}
    (hf : G.Keeps w (f (q w)) R) : G.Keeps w (Run.ask q >>= f) R := hf

/-- A check, and what follows it if it succeeds. -/
theorem Keeps.check_bind {β : Type} {q : World → Except Fault α} {f : α → Run β}
    {R : World → β → Prop} (hf : ∀ a, q w = .ok a → G.Keeps w (f a) R) :
    G.Keeps w (Run.check q >>= f) R := by
  rw [Keeps, bind_run, check_run]
  cases hq : q w with
  | ok a => exact hf a hq
  | error e => exact ⟨G.refl w, fun _ hb => by cases hb⟩

theorem admits_nil (G : Regime) (w : World) : ∀ v ∈ ([] : List Value), G.Admits w v := by
  intro v hv
  cases hv

/-- A body that is run on an object, with arguments. -/
theorem Fits.method {args : List Value} (ho : G.Opens w o)
    (hargs : ∀ v ∈ args, G.Admits w v) : G.Fits w { this := some o, args } where
  this _ h := Option.some.inj h ▸ ho
  args := hargs
  owner _ h := by cases h

/-- A receiver that is run on an object. -/
theorem Fits.receiver {target : ObjectId} (ht : G.Opens w target)
    (ho : G.Admits w (.object o)) (type : Ty) (name : String) :
    G.Fits w { this := some target, info := some ⟨o, type, name⟩ } where
  this _ h := Option.some.inj h ▸ ht
  args := admits_nil G w
  owner _ h := Option.some.inj h ▸ ho

/-! ## Accessors -/

/-- A value that passes the check is the value itself. -/
theorem admits_cast {v u : Value} {t : Ty} (hv : G.Admits w v) (hu : w.schema.cast w.heap v t = .ok u) :
    G.Admits w u := by
  have hsame : u = v := by
    simp only [Schema.cast] at hu
    split at hu
    · exact (Except.ok.inj hu).symm
    · split at hu
      · split at hu
        · cases hu
        · exact (Except.ok.inj hu).symm
      · split at hu
        · exact (Except.ok.inj hu).symm
        · cases hu
  rw [hsame]
  exact hv

theorem keeps_cast {v : Value} (hv : G.Admits w v) (t : Ty) : G.Keeps w (cast v t) G.Admits :=
  .check fun _ hu => admits_cast hv hu

theorem keeps_isPresent (hw : G.Inv w) (ho : G.Admits w (.object o)) :
    G.Keeps w (isPresent o) fun _ _ => True :=
  (keeps_field hw ho).bind hw fun _ _ _ _ _ => .pure trivial

theorem keeps_present (hw : G.Inv w) (k : Kind) (ho : G.Opens w o) {v : Value}
    (hv : G.Admits w v) : G.Keeps w (present k o v) fun _ _ => True := by
  refine (keeps_cast hv _).bind hw fun w₁ u hw₁ hl hu => ?_
  refine (keeps_setField hw₁ (G.opens_mono hl ho) hu).bind hw₁ fun w₂ _ hw₂ hl₂ _ => ?_
  exact keeps_setField hw₂ (G.opens_mono hl₂ (G.opens_mono hl ho)) (G.literal rfl)

theorem keeps_holder (m : ValueMember) (v : Value) :
    G.Keeps w (m.holder v) fun w' o => w' = w ∧ v = .object o := by
  cases v with
  | object o => exact .pure ⟨rfl, rfl⟩
  | null => exact .fail
  | scalar s => exact .fail
  | carrier k => exact .fail

section
variable (hc : G.Lawful c)
include hc

theorem keeps_readMember (m : ValueMember) {v : Value} (hw : G.Inv w) (hv : G.Admits w v) :
    G.Keeps w (m.read c v) G.Admits := by
  refine (keeps_holder m v).bind hw fun w₁ o hw₁ _ ho => ?_
  obtain ⟨rfl, rfl⟩ := ho
  cases m.place with
  | field slot => exact keeps_field hw hv
  | property readable writable => exact hc.read m.name hw hv

/-- A member is written that is a property, or a field of an object that is open. -/
theorem keeps_writeMember (m : ValueMember) {v new : Value} (hw : G.Inv w) (hv : G.Admits w v)
    (hopen : ∀ {j o}, m.place = .field j → v = .object o → G.Opens w o) (hnew : G.Admits w new) :
    G.Keeps w (m.write c v new) fun _ _ => True := by
  refine (keeps_holder m v).bind hw fun w₁ o hw₁ _ ho => ?_
  obtain ⟨rfl, rfl⟩ := ho
  cases hm : m.place with
  | field slot => exact keeps_setField hw (hopen hm rfl) hnew
  | property readable writable => exact hc.write m.name hw hv hnew

/-- The object of a routine is open. -/
theorem keeps_getter {g : Getter} (hw : G.Inv w) (ho : G.Admits w (.object o))
    (hopen : ∀ {body}, g = .routine body → G.Opens w o) (hg : g.All (G.Admits w)) :
    G.Keeps w (g.run c o) G.Admits := by
  cases g with
  | routine body =>
    exact keeps_routine hc (r := body) hw (.method (hopen rfl) (admits_nil G w)) hg
  | slot i => exact keeps_field hw ho
  | isAbsent => exact (keeps_isPresent hw ho).bind hw fun _ _ _ _ _ => .pure (G.literal rfl)
  | wrapped type =>
    refine (keeps_isPresent hw ho).bind hw fun w₁ present hw₁ hl _ => ?_
    split
    · exact keeps_field hw₁ (G.mono hl ho)
    · exact .fail
  | through i member type =>
    refine (keeps_field hw ho).bind hw fun w₁ v hw₁ _ hv => ?_
    refine (keeps_readMember hc member hw₁ hv).bind hw₁ fun w₂ u hw₂ _ hu => ?_
    cases type with
    | none => exact .pure hu
    | some t => exact keeps_cast hu t

/-- A setter is run on an object that is open. If it goes through a field then into another such object. -/
theorem keeps_setter {g : Setter} {v : Value} (hw : G.Inv w) (ho : G.Opens w o)
    (hthrough : ∀ {k m t j x u}, g = .through k m t → m.place = .field j →
      w.schema.cast w.heap v t = .ok u → w.field o k = .ok (.object x) → G.Opens w x)
    (hv : G.Admits w v) (hg : g.All (G.Admits w)) : G.Keeps w (g.run c o v) fun _ _ => True := by
  have hframe : G.Fits w { this := some o, args := [v] } :=
    .method ho fun u hu => List.mem_singleton.mp hu ▸ hv
  cases g with
  | routine body => exact (keeps_routine hc (r := body) hw hframe hg).discard hw
  | slot i => exact keeps_setField hw ho hv
  | slotOf i type => exact .check_bind fun u hu => keeps_setField hw ho (admits_cast hv hu)
  | wrapped kind => exact keeps_present hw kind ho hv
  | through i member type =>
    refine .check_bind fun u hu => .check_bind fun holder hholder => ?_
    have hadmits := G.field hw (G.admits ho) hholder
    refine keeps_writeMember hc member hw hadmits (fun hm he => ?_) (admits_cast hv hu)
    exact hthrough rfl hm hu (he ▸ hholder)

/-! ## Creating instances -/

omit hc in
theorem keeps_tell (d : Descriptor) (e : Fault) (hw : G.Inv w) :
    G.Keeps w (d.tell e) fun _ r => r = .failed e := by
  refine Keeps.ask_bind ?_
  exact (Keeps.modify (G.observe w _)).bind hw fun _ _ _ _ _ => .pure rfl

/-- An instance that was created is admitted. -/
def Made (G : Regime) (w : World) (r : Creation) : Prop :=
  ∀ o, r = .created o → G.Admits w (.object o)

theorem keeps_guarded (d : Descriptor) (k : Nat) {vs : List Value} (hw : G.Inv w)
    (hvs : ∀ v ∈ vs, G.Admits w v) : G.Keeps w (d.guarded c k vs) G.Made := by
  refine (hc.construct d.product k hw hvs).outcome.bind hw fun w₁ r hw₁ _ hr => ?_
  have htell : ∀ e, G.Keeps w₁ (d.tell e) G.Made := fun e =>
    (keeps_tell d e hw₁).imp fun w₂ r hr o ho => by rw [hr] at ho; cases ho
  rcases r with e | o
  · cases e with
    | fault e => exact htell e
    | panic reason => exact htell _
    | exhausted => exact .halt
  · refine .pure fun o' ho' => ?_
    obtain rfl := Creation.created.inj ho'
    exact hr o rfl

theorem keeps_create (d : Descriptor) (hw : G.Inv w) : G.Keeps w (d.create c) G.Made := by
  rw [Descriptor.create]
  cases d.defaultConstructor with
  | none => exact .pure fun o ho => by cases ho
  | some k => exact keeps_guarded hc d k hw (admits_nil G w)

theorem keeps_createWith (d : Descriptor) {k : CarrierId} (hw : G.Inv w)
    (hk : G.Admits w (.carrier k)) : G.Keeps w (d.createWith c k) G.Made := by
  rw [Descriptor.createWith]
  cases d.factoryConstructor with
  | none => exact .pure fun o ho => by cases ho
  | some i =>
    refine keeps_guarded hc d i hw fun v hv => ?_
    split at hv
    · exact List.mem_singleton.mp hv ▸ hk
    · cases hv

/-! ## Construction plans -/

omit hc

/-- The carriers of a construction are admitted. -/
structure Carries (G : Regime) (w : World) (cs : Carriers) : Prop where
  argument : ∀ k ∈ cs.argument, G.Admits w (.carrier k)
  transient : ∀ k ∈ cs.transient, G.Admits w (.carrier k)

theorem Carries.mono {w' : World} {cs : Carriers} (h : G.Leads w w') (hcs : G.Carries w cs) :
    G.Carries w' cs :=
  ⟨fun k hk => G.mono h (hcs.argument k hk), fun k hk => G.mono h (hcs.transient k hk)⟩

theorem keeps_take {cs : Carriers} (source : CarrierSource) (hw : G.Inv w) (hcs : G.Carries w cs) :
    G.Keeps w (cs.take source) fun w' r => G.Admits w' (.carrier r.1) ∧ G.Carries w' r.2 := by
  cases source with
  | argument =>
    rw [Carriers.take]
    cases hk : cs.argument with
    | some k =>
      have hadmits := hcs.argument k hk
      exact .pure ⟨hadmits, fun _ h => Option.some.inj h ▸ hadmits, hcs.transient⟩
    | none =>
      exact (keeps_newCarrier hw).bind hw fun w₁ k _ hl hadmits =>
        .pure ⟨hadmits, fun _ h => Option.some.inj h ▸ hadmits, (hcs.mono hl).transient⟩
  | transient =>
    rw [Carriers.take]
    cases hk : cs.transient with
    | some k =>
      have hadmits := hcs.transient k hk
      exact .pure ⟨hadmits, hcs.argument, fun _ h => Option.some.inj h ▸ hadmits⟩
    | none =>
      exact (keeps_newCarrier hw).bind hw fun w₁ k _ hl hadmits =>
        .pure ⟨hadmits, (hcs.mono hl).argument, fun _ h => Option.some.inj h ▸ hadmits⟩

theorem keeps_withParameters {k : CarrierId} {parameters : Option (List Value)} {body : Run α}
    {Q : World → α → Prop} (hw : G.Inv w) (hk : G.Admits w (.carrier k))
    (hvs : ∀ vs ∈ parameters, ∀ v ∈ vs, G.Admits w v)
    (hbody : ∀ w', G.Inv w' → G.Leads w w' → G.Keeps w' body Q)
    (hQ : ∀ {w₁ w₂ a}, G.Leads w₁ w₂ → Q w₁ a → Q w₂ a) :
    G.Keeps w (withParameters k parameters body) Q := by
  cases parameters with
  | none => exact hbody w hw (G.refl w)
  | some vs =>
    refine (keeps_setParameters hw hk hvs).bind hw fun w₁ _ hw₁ hl _ => ?_
    refine (hbody w₁ hw₁ hl).ensuring hw₁ (fun w₂ hw₂ hl₂ => ?_) hQ
    exact keeps_setParameters hw₂ (G.mono (G.trans hl hl₂) hk) fun _ h => by cases h

theorem keeps_load {parameters : Option (List Value)} {a : Operand}
    (hp : ∀ vs ∈ parameters, ∀ v ∈ vs, G.Admits w v)
    (ha : ∀ v, a = .literal v → G.Admits w v) : G.Keeps w (a.load parameters) G.Admits := by
  cases a with
  | literal v => exact .pure (ha v rfl)
  | parameter index type =>
    rw [Operand.load]
    cases hi : (parameters.getD [])[index]? with
    | none => exact .fail
    | some v =>
      refine keeps_cast ?_ type
      cases parameters with
      | none => simp at hi
      | some vs => exact hp vs rfl v (List.mem_of_getElem? hi)

theorem keeps_loadAll {parameters : Option (List Value)} {as : List Operand} (hw : G.Inv w)
    (hp : ∀ vs ∈ parameters, ∀ v ∈ vs, G.Admits w v)
    (has : ∀ v, .literal v ∈ as → G.Admits w v) :
    G.Keeps w (Operand.loadAll parameters as) fun w' vs => ∀ v ∈ vs, G.Admits w' v := by
  induction as generalizing w with
  | nil => exact .pure (admits_nil G w)
  | cons a as ih =>
    have ha : ∀ v, a = .literal v → G.Admits w v := fun v h => has v (h ▸ List.mem_cons_self)
    refine (keeps_load hp ha).bind hw fun w₁ v hw₁ hl hv => ?_
    refine (ih hw₁ (fun vs hvs v hv => G.mono hl (hp vs hvs v hv))
      (fun v hv => G.mono hl (has v (List.mem_cons_of_mem _ hv)))).bind hw₁
      fun w₂ vs _ hl₂ hvs => .pure ?_
    intro u hu
    rcases List.mem_cons.mp hu with rfl | hu
    · exact G.mono hl₂ hv
    · exact hvs u hu

/-- What a step receives from a creation. -/
theorem Made.received {r : Creation} (hr : G.Made w r) (step : BuildStep) :
    G.Admits w (step.received w r) := by
  rw [BuildStep.received]
  cases hr' : r.object?.filter (w.isInstance · step.fieldType) with
  | none => exact G.literal rfl
  | some o =>
    refine hr o ?_
    have hobject : r.object? = some o := (Option.filter_eq_some_iff.mp hr').1
    cases r with
    | created o' => exact congrArg Creation.created (Option.some.inj hobject)
    | failed e => cases hobject
    | unavailable => cases hobject

include hc

theorem keeps_build {step : BuildStep} {cs : Carriers} (hw : G.Inv w) (hcs : G.Carries w cs)
    (hstep : step.All (G.Admits w)) :
    G.Keeps w (step.build c cs) fun w' r => G.Admits w' r.1 ∧ G.Carries w' r.2 := by
  have hparameters : ∀ {w'}, G.Leads w w' → ∀ vs ∈ step.parameters, ∀ v ∈ vs, G.Admits w' v :=
    fun hl vs hvs v hv => G.mono hl (hstep.parameters vs hvs v hv)
  rw [BuildStep.build]
  cases hsource : step.source with
  | lookup l source =>
    refine (keeps_resolve hw).bind hw fun w₁ d hw₁ hl₁ _ => ?_
    refine (keeps_take source hw₁ (hcs.mono hl₁)).bind hw₁ fun w₂ r hw₂ hl₂ hr => ?_
    obtain ⟨k, cs'⟩ := r
    have hcreate : G.Keeps w₂ (withParameters k step.parameters (d.createWith c k)) G.Made :=
      keeps_withParameters hw₂ hr.1 (hparameters (G.trans hl₁ hl₂))
        (fun w₃ hw₃ hl₃ => keeps_createWith hc d hw₃ (G.mono hl₃ hr.1))
        fun hl h o ho => G.mono hl (h o ho)
    refine hcreate.bind hw₂ fun w₃ creation hw₃ hl₃ hmade => ?_
    exact Keeps.ask_bind (.pure ⟨hmade.received step, hr.2.mono hl₃⟩)
  | direct target k args =>
    refine (keeps_loadAll hw (hparameters (G.refl w)) (hstep.literals target k args hsource)).bind
      hw fun w₁ vs hw₁ hl₁ hvs => ?_
    exact (hc.construct target k hw₁ hvs).bind hw₁ fun w₂ o _ hl₂ ho =>
      .pure ⟨ho, hcs.mono (G.trans hl₁ hl₂)⟩
  | withCarrier target k source =>
    refine (keeps_take source hw hcs).bind hw fun w₁ r hw₁ hl₁ hr => ?_
    obtain ⟨carrier, cs'⟩ := r
    have hconstruct : G.Keeps w₁ (withParameters carrier step.parameters
        (c.construct target k [.carrier carrier])) fun w' o => G.Admits w' (.object o) :=
      keeps_withParameters hw₁ hr.1 (hparameters hl₁)
        (fun w₂ hw₂ hl₂ => hc.construct target k hw₂ fun v hv =>
          List.mem_singleton.mp hv ▸ G.mono hl₂ hr.1)
        fun hl h => G.mono hl h
    exact hconstruct.bind hw₁ fun w₂ o _ hl₂ ho => .pure ⟨ho, hr.2.mono hl₂⟩

theorem keeps_step {step : BuildStep} {cs : Carriers} (hw : G.Inv w) (ho : G.Opens w o)
    (hcs : G.Carries w cs) (hstep : step.All (G.Admits w)) :
    G.Keeps w (step.run c o cs) G.Carries := by
  refine (keeps_build hc hw hcs hstep).bind hw fun w₁ r hw₁ hl₁ hr => ?_
  obtain ⟨v, cs'⟩ := r
  exact (keeps_setField hw₁ (G.opens_mono hl₁ ho) hr.1).bind hw₁ fun w₂ _ _ hl₂ _ =>
    .pure (hr.2.mono hl₂)

theorem keeps_steps {steps : List BuildStep} {cs : Carriers} (hw : G.Inv w) (ho : G.Opens w o)
    (hcs : G.Carries w cs)
    (hsteps : ∀ step ∈ steps, step.All (G.Admits w)) :
    G.Keeps w (BuildStep.runAll c o steps cs) G.Carries := by
  induction steps generalizing w cs with
  | nil => exact .pure hcs
  | cons step steps ih =>
    refine (keeps_step hc hw ho hcs (hsteps step List.mem_cons_self)).bind hw
      fun w₁ cs' hw₁ hl hcs' => ?_
    exact ih hw₁ (G.opens_mono hl ho) hcs' fun s hs =>
      (hsteps s (List.mem_cons_of_mem _ hs)).imp fun _ => G.mono hl

theorem keeps_info (i : InfoStep) (hw : G.Inv w) (ho : G.Admits w (.object o)) :
    G.Keeps w (i.run c o) fun _ _ => True := by
  refine (keeps_field hw ho).bind hw fun w₁ v hw₁ hl hv => ?_
  cases v with
  | null => exact .fail
  | scalar s => exact .fail
  | carrier k => exact .fail
  | object target =>
    refine Keeps.ask_bind ?_
    cases hbody : w₁.schema.receiver? (w₁.classOf target) with
    | none => exact Keeps.ask_bind .fail
    | some body =>
      -- a wrapper has no receiver
      have htarget : G.Opens w₁ target := by
        rcases G.encloses hw₁ hv with hopen | ⟨κ, henc, -⟩
        · exact hopen
        · cases henc.receiver.symm.trans hbody
      exact (keeps_routine hc hw₁ (.receiver htarget (G.mono hl ho) _ _)
        ((G.literals hw₁).receiver? hbody)).discard hw₁

theorem keeps_infos (is : List InfoStep) (hw : G.Inv w) (ho : G.Admits w (.object o)) :
    G.Keeps w (is.forM (InfoStep.run c o)) fun _ _ => True := by
  induction is generalizing w with
  | nil => exact .pure trivial
  | cons i is ih =>
    show G.Keeps w (InfoStep.run c o i >>= fun _ => is.forM (InfoStep.run c o)) _
    exact (keeps_info hc i hw ho).bind hw fun w₁ _ hw₁ hl _ => ih hw₁ (G.mono hl ho)

theorem keeps_base (b : BaseCall) {cs : Carriers} (hw : G.Inv w) (ho : G.Opens w o)
    (hcs : G.Carries w cs) : G.Keeps w (b.run c o cs) fun _ _ => True := by
  rw [BaseCall.run]
  split
  · refine (keeps_take .argument hw hcs).bind hw fun w₁ r hw₁ hl hr => ?_
    exact hc.chain b.target b.constructor hw₁ (.inl (G.opens_mono hl ho)) fun v hv =>
      List.mem_singleton.mp hv ▸ hr.1
  · exact hc.chain b.target b.constructor hw (.inl ho) (admits_nil G w)

omit hc in
/-- An argument that is a carrier may be passed on, if the arguments may. -/
theorem carries_argument {p : ConstructionPlan} {args : List Value}
    (hargs : ∀ v ∈ args, G.Admits w v) :
    G.Carries w { argument := if p.takesCarrier then args.head?.bind Value.carrier? else none } := by
  refine ⟨fun k hk => ?_, fun k hk => by cases hk⟩
  dsimp only at hk
  split at hk
  · obtain ⟨v, hv, hvk⟩ := Option.bind_eq_some_iff.mp hk
    have hv := hargs v (List.mem_of_head? hv)
    cases v with
    | carrier k' =>
      obtain rfl := Option.some.inj hvk
      exact hv
    | null => cases hvk
    | scalar s => cases hvk
    | object o => cases hvk
  · cases hk

theorem keeps_runFrom {p : ConstructionPlan} {steps : List BuildStep} {cs : Carriers} (hw : G.Inv w)
    (ho : G.Opens w o) (hcs : G.Carries w cs)
    (hsteps : ∀ step ∈ steps, step.All (G.Admits w)) :
    G.Keeps w (p.runFrom c o steps cs) fun _ _ => True := by
  refine (keeps_steps hc hw ho hcs hsteps).bind hw fun w₁ cs hw₁ hl hcs' => ?_
  have ho₁ := G.opens_mono hl ho
  refine (keeps_infos hc p.infos hw₁ (G.admits ho₁)).bind hw₁ fun w₂ _ hw₂ hl₂ _ => ?_
  cases p.base with
  | none => exact .pure trivial
  | some b => exact keeps_base hc b hw₂ (G.opens_mono hl₂ ho₁) (hcs'.mono hl₂)

theorem keeps_plan {p : ConstructionPlan} {args : List Value} (hw : G.Inv w) (ho : G.Opens w o)
    (hargs : ∀ v ∈ args, G.Admits w v)
    (hp : ∀ step ∈ p.steps, step.All (G.Admits w)) :
    G.Keeps w (p.run c o args) fun _ _ => True :=
  keeps_runFrom hc hw ho (carries_argument hargs) hp

/-! ## Calls -/

theorem keeps_constructor {b : ConstructorBody} {args : List Value} (hw : G.Inv w)
    (ho : G.Opens w o) (hargs : ∀ v ∈ args, G.Admits w v) (hb : b.All (G.Admits w)) :
    G.Keeps w (b.run c o args) fun _ _ => True := by
  cases b with
  | routine body =>
    exact (keeps_routine hc (r := body) hw (.method ho hargs) hb).discard hw
  | chain base =>
    cases base with
    | none => exact .pure trivial
    | some tk => exact hc.chain tk.1 tk.2 hw (.inl ho) (admits_nil G w)
  | wrapped kind =>
    refine keeps_present hw kind ho ?_
    cases args with
    | nil => exact G.literal rfl
    | cons v vs => exact hargs v List.mem_cons_self
  | plan p => exact keeps_plan hc hw ho hargs hb

/-- A constructor of a type is run on an object that is open, or on a wrapper of the type. -/
theorem keeps_constructorFor {t : Ty} {k n : Nat} {d : ConstructorDecl} {args : List Value} (hw : G.Inv w)
    (ho : G.Receives w t o) (hd : w.schema.constructorFor t k n = .ok d)
    (hargs : ∀ v ∈ args, G.Admits w v) : G.Keeps w (d.body.run c o args) fun _ _ => True := by
  rcases ho with ho | ⟨ho, rfl⟩
  · exact keeps_constructor hc hw ho hargs ((G.literals hw).constructorFor hd)
  · rcases G.encloses hw ho with ho | ⟨κ, henc, hpresent⟩
    · exact keeps_constructor hc hw ho hargs ((G.literals hw).constructorFor hd)
    · rcases henc.constructor hd with hbody | hbody
      · have hv : G.Admits w (args.headD .null) := by
          cases args with
          | nil => exact G.literal rfl
          | cons v vs => exact hargs v List.mem_cons_self
        rw [hbody]
        exact ⟨hpresent _ hv, fun _ _ => trivial⟩
      · rw [hbody]
        exact .pure trivial

theorem keeps_constructStep (t : Ty) (k : Nat) {vs : List Value} (hw : G.Inv w)
    (hvs : ∀ v ∈ vs, G.Admits w v) :
    G.Keeps w (Calls.constructStep c t k vs) fun w' o => G.Admits w' (.object o) := by
  refine Keeps.get.bind hw fun w₁ w₂ _ _ heq => ?_
  obtain ⟨rfl, rfl⟩ := heq
  split
  · exact .fail
  · refine Keeps.bind hw (.ofExcept
      (Q := fun w' d => w' = w₂ ∧ w₂.schema.constructorFor t k vs.length = .ok d)
      fun d hd => ⟨rfl, hd⟩) fun w₃ d _ _ hd => ?_
    obtain ⟨rfl, hd⟩ := hd
    cases hnew : w₃.newObject t with
    | none => exact .fail
    | some ow =>
      obtain ⟨o, w'⟩ := ow
      obtain ⟨hl, ho⟩ := G.allocate hw hnew
      -- the new object is of the type
      obtain ⟨hclass, hschema⟩ := World.newObject_class hnew
      rw [← hschema] at hd
      refine (Keeps.set hl).bind hw fun w₄ _ hw₄ _ heq => ?_
      obtain rfl := heq
      refine (keeps_constructorFor hc hw₄ (.inr ⟨ho, hclass⟩) hd fun v hv => G.mono hl (hvs v hv)).bind hw₄
        fun w₅ _ _ hl₅ _ => .pure ?_
      exact G.mono hl₅ ho

theorem keeps_chainStep (t : Ty) (k : Nat) {args : List Value} (hw : G.Inv w)
    (ho : G.Receives w t o) (hargs : ∀ v ∈ args, G.Admits w v) :
    G.Keeps w (Calls.chainStep c t k o args) fun _ _ => True :=
  .check_bind fun _ hd => keeps_constructorFor hc hw ho hd hargs

theorem keeps_readStep (name : String) (hw : G.Inv w) (ho : G.Admits w (.object o)) :
    G.Keeps w (Calls.readStep c o name) G.Admits := by
  refine .check_bind fun g hg => keeps_getter hc hw ho (fun he => ?_) ((G.literals hw).getterFor hg)
  rcases G.encloses hw ho with ho | ⟨κ, henc, -⟩
  · exact ho
  · rcases henc.getter hg with rfl | ⟨type, rfl⟩ <;> cases he

/-- A property is written, as long as no field of a wrapper is. -/
theorem keeps_writeStep (name : String) {v : Value} (hw : G.Inv w) (ho : G.Admits w (.object o))
    (hthrough : ∀ {k m t j x u}, w.schema.setterFor (w.classOf o) name = .ok (.through k m t) →
      m.place = .field j → w.schema.cast w.heap v t = .ok u → w.field o k = .ok (.object x) →
      G.Opens w x)
    (hv : G.Admits w v) : G.Keeps w (Calls.writeStep c o name v) fun _ _ => True := by
  refine .check_bind fun g hg => ?_
  rcases G.encloses hw ho with ho | ⟨κ, henc, hpresent⟩
  · exact keeps_setter hc hw ho (fun he => hthrough (he ▸ hg)) hv ((G.literals hw).setterFor hg)
  · obtain rfl := henc.setter hg
    exact ⟨hpresent v hv, fun _ _ => trivial⟩

end

/-- **Every run keeps to a regime**, to any depth of nested calls. -/
theorem nested_lawful (G : Regime) [G.IsOpen] (depth : Nat) : G.Lawful (Calls.nested depth) := by
  induction depth with
  | zero => constructor <;> intros <;> exact .halt
  | succ depth ih =>
    refine ⟨fun name => keeps_readStep ih name, fun name v hw ho => ?_,
      fun t k => keeps_constructStep ih t k, fun t k => keeps_chainStep ih t k⟩
    exact keeps_writeStep ih name hw ho fun _ _ _ hx => IsOpen.opens (G.field hw ho hx)

end Regime

end RecordForge
