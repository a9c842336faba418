import RecordForge.Proofs.Construction.Notes
import RecordForge.Proofs.Run.Growth

/-!
# What notes account for

The notes of a run account for two things that it does to a world (`World.Accounts`). What observers
have seen since is what is noted, in that order: a failed creation is reported where it ends, and
nothing else is the report of one. And a carrier that was given the parameters of a step in the course
of the run holds none when the run is over, unless a routine has replaced them; all others are as they
were.

This holds of every run, to any depth of nested calls, and however the run ends
(`TracedCalls.nested_accounted`).
-/

namespace RecordForge

open Run Traced

/-! ## Accounts -/

/-- Whether an event is the report of a failed creation. -/
def Event.isReport : Event → Bool
  | .failed .. | .warned (.creationFailed ..) => true
  | _ => false

/-- What observers see of what is noted. -/
def Note.events : Note → List Event
  | .seen e => [e]
  | .ended x name (.failed f) => [x.failure name f]
  | _ => []

namespace World

/-- Notes account for what has become of a world. -/
structure Accounts (w : World) (notes : List Note) (w' : World) : Prop where
  events : w'.events = (notes.flatMap Note.events).reverse ++ w.events
  seen : ∀ e, .seen e ∈ notes → e.isReport = false
  installed : ∀ k, .replaced k ∉ notes → .installed k ∈ notes → w'.heap.parameters? k = none
  untouched : ∀ k, .replaced k ∉ notes → .installed k ∉ notes →
    w'.heap.parameters? k = w.heap.parameters? k

/-- Observers have seen something, but no report, and all carriers are as they were. -/
structure Discreet (w w' : World) : Prop where
  events : ∃ es, w'.events = es ++ w.events ∧ ∀ e ∈ es, e.isReport = false
  parameters : w'.heap.parameters? = w.heap.parameters?

variable {w w' w'' : World} {notes notes' : List Note}

theorem Discreet.refl (w : World) : w.Discreet w := ⟨⟨[], rfl, fun _ he => nomatch he⟩, rfl⟩

theorem Discreet.trans (h : w.Discreet w') (h' : w'.Discreet w'') : w.Discreet w'' := by
  obtain ⟨⟨es, he, hes⟩, hp⟩ := h
  obtain ⟨⟨es', he', hes'⟩, hp'⟩ := h'
  refine ⟨⟨es' ++ es, by rw [he', he, List.append_assoc], fun e h => ?_⟩, hp'.trans hp⟩
  exact (List.mem_append.mp h).elim (hes' e) (hes e)

/-- A world that differs in the heap only, but not in the carriers. -/
theorem Discreet.of_heap {heap : Heap} (h : heap.carriers = w.heap.carriers) :
    w.Discreet { w with heap } := by
  refine ⟨⟨[], rfl, fun _ he => nomatch he⟩, ?_⟩
  funext k
  simp only [Heap.parameters?, h]

theorem Accounts.refl (w : World) : w.Accounts [] w :=
  ⟨rfl, fun _ h => (List.not_mem_nil h).elim, fun _ _ h => (List.not_mem_nil h).elim,
    fun _ _ _ => rfl⟩

theorem Accounts.trans (h : w.Accounts notes w') (h' : w'.Accounts notes' w'') :
    w.Accounts (notes ++ notes') w'' where
  events := by
    rw [h'.events, h.events, List.flatMap_append, List.reverse_append, List.append_assoc]
  seen e he := (List.mem_append.mp he).elim (h.seen e) (h'.seen e)
  installed k hr hi := by
    rw [List.mem_append, not_or] at hr
    by_cases hlast : .installed k ∈ notes'
    · exact h'.installed k hr.2 hlast
    · rw [h'.untouched k hr.2 hlast]
      exact h.installed k hr.1 ((List.mem_append.mp hi).resolve_right hlast)
  untouched k hr hi := by
    rw [List.mem_append, not_or] at hr hi
    rw [h'.untouched k hr.2 hi.2, h.untouched k hr.1 hi.1]

/-- What observers have seen since is all that there is to note. -/
theorem Discreet.accounts (h : w.Discreet w') : w.Accounts ((w.since w').map .seen) w' := by
  obtain ⟨⟨es, he, hes⟩, hp⟩ := h
  have hsince : w.since w' = es.reverse := by
    rw [since, he, List.length_append, Nat.add_sub_cancel, List.take_left]
  refine ⟨?_, fun e h => ?_, fun k _ h => ?_, fun k _ _ => congrFun hp k⟩
  · have hevents : (es.reverse.map Note.seen).flatMap Note.events = es.reverse := by
      rw [List.flatMap_map]
      exact List.flatMap_singleton' es.reverse
    rw [hsince, hevents, List.reverse_reverse, he]
  · obtain ⟨e', he', heq⟩ := List.mem_map.mp h
    obtain rfl := Note.seen.inj heq
    exact hes _ (by rwa [hsince, List.mem_reverse] at he')
  · obtain ⟨e', -, heq⟩ := List.mem_map.mp h
    cases heq

end World

/-! ## Discreet runs -/

namespace Run

variable {α β : Type} {x : Run α} {f : α → Run β}

/-- Whatever the world, and however the run ends, it is discreet. -/
def Discreet (x : Run α) : Prop := ∀ w : World, w.Discreet (x w).2

theorem Discreet.pure (a : α) : Discreet (Pure.pure a) := fun w => .refl w

theorem Discreet.halt (e : Halt) : Discreet (Run.halt e : Run α) := fun w => .refl w

theorem Discreet.bind (hx : Discreet x) (hf : ∀ a, Discreet (f a)) : Discreet (x >>= f) := by
  intro w
  have h := hx w
  rw [bind_run]
  cases hxw : x w with
  | mk r w' =>
    rw [hxw] at h
    cases r with
    | error e => exact h
    | ok a => exact h.trans (hf a w')

theorem Discreet.ask (q : World → α) : Discreet (Run.ask q) := fun w => .refl w

theorem Discreet.ofExcept (y : Except Fault α) : Discreet (Run.ofExcept y) := by
  cases y with
  | ok a => exact .pure a
  | error e => exact .halt _

theorem Discreet.check (q : World → Except Fault α) : Discreet (Run.check q) := fun w =>
  (Discreet.ofExcept (q w) : Discreet _) w

theorem Discreet.change {step : World → Except Fault World}
    (h : ∀ w w', step w = .ok w' → w.Discreet w') : Discreet (Run.change step) := by
  intro w
  rw [change_run]
  cases hstep : step w with
  | ok w' => exact h w w' hstep
  | error e => exact .refl w

theorem Discreet.setField (o : ObjectId) (k : Nat) (v : Value) :
    Discreet (Run.change (·.setField o k v)) := by
  refine .change fun w w' h => ?_
  obtain ⟨heap, hstore, rfl⟩ := World.setField_eq_ok_iff.mp h
  obtain ⟨i, -, -, rfl⟩ := Heap.store_eq_some_iff.mp hstore
  exact .of_heap (w.heap.assign_adds v).1.carriers

theorem Discreet.display (event : Picture → Event) (v : Value)
    (h : ∀ p, (event p).isReport = false) : Discreet (Run.display event v) := by
  refine (Discreet.ask _).bind fun p w => ⟨⟨[event p], rfl, fun e he => ?_⟩, rfl⟩
  rw [List.mem_singleton.mp he]
  exact h p

theorem Discreet.newCarrier : Discreet Run.newCarrier := by
  intro w
  refine ⟨⟨[], rfl, fun _ he => nomatch he⟩, funext fun k => ?_⟩
  show ((w.heap.carriers.push none)[k]?).join = (w.heap.carriers[k]?).join
  rw [Array.getElem?_push]
  split
  · next hk => rw [hk, Array.getElem?_eq_none (Nat.le_refl _)]; rfl
  · rfl

end Run

namespace World

variable {w w' : World}

theorem isReport_of_mem_unavailableWarnings {d : Descriptor} {e : Event}
    (h : e ∈ w.unavailableWarnings d) : e.isReport = false := by
  rcases List.mem_append.mp h with h | h <;> split at h <;> simp_all [Event.isReport]

theorem isReport_of_mem_writeReports {directory : Directory} {ds : List Descriptor} {e : Event}
    (h : e ∈ (w.writeReports directory ds).2) : e.isReport = false := by
  induction ds generalizing directory with
  | nil => cases h
  | cons d ds ih =>
    rw [writeReports] at h
    rcases List.mem_append.mp h with h | h
    · rw [writeReport] at h
      split at h
      · cases h
      · split at h
        · cases h
        · rw [List.mem_singleton.mp h]
          rfl
    · exact ih h

/-- Answering a request may log warnings, but no failed creation. -/
theorem discreet_descriptorFor {r : RegistryId} {registry : Registry} {t : Ty} {d : DescriptorId}
    (h : w.descriptorFor r registry t = .ok (d, w')) : w.Discreet w' := by
  rw [descriptorFor] at h
  split at h
  · cases h
    exact .refl w
  · obtain ⟨⟨found, s⟩, -, h⟩ := RequestError.bind_eq_ok_iff.mp h
    cases h
    rw [adopt]
    dsimp only
    refine ⟨⟨_, rfl, fun e he => ?_⟩, rfl⟩
    rcases List.mem_append.mp (List.mem_reverse.mp he) with he | he
    · split at he
      · obtain ⟨d, -, he⟩ := List.mem_flatMap.mp he
        exact isReport_of_mem_unavailableWarnings he
      · cases he
    · split at he
      · exact isReport_of_mem_writeReports he
      · cases he

end World

namespace Run

variable {α β : Type} {x : Run α} {f : α → Run β}

theorem Discreet.resolve (l : LookupId) : Discreet (Run.resolve l) := by
  intro w
  rw [resolve_run]
  cases h : w.resolve l with
  | error e => exact .refl w
  | ok xw =>
    obtain ⟨lookup, -, ⟨-, hw⟩ | ⟨-, registry, e, w₁, -, -, hd, -, hw⟩⟩ :=
      World.resolve_eq_ok_iff.mp h
    · rw [hw]
      exact .refl w
    · rw [hw]
      have hdiscreet := World.discreet_descriptorFor hd
      exact ⟨hdiscreet.events, hdiscreet.parameters⟩

theorem Discreet.object (v : Value) : Discreet (Run.object v) := by
  cases v with
  | object o => exact .pure o
  | null => exact .halt _
  | scalar s => exact .halt _
  | carrier k => exact .halt _

theorem Discreet.classAtHand (f : Frame) : Discreet (Run.classAtHand f) := by
  rw [Run.classAtHand]
  cases f.declaring with
  | some t => exact .pure t
  | none => exact (Discreet.object _).bind fun o => .ask _

theorem Discreet.cast (v : Value) (t : Ty) : Discreet (Run.cast v t) := .check _

theorem Discreet.isPresent (o : ObjectId) : Discreet (Run.isPresent o) :=
  (Discreet.check _).bind fun _ => .pure _

theorem Discreet.present (k : Kind) (o : ObjectId) (v : Value) : Discreet (Run.present k o v) :=
  (Discreet.cast v _).bind fun u => (Discreet.setField o _ u).bind fun _ => .setField o _ _

theorem Discreet.holder (m : ValueMember) (v : Value) : Discreet (m.holder v) := by
  cases v with
  | object o => exact .pure o
  | null => exact .halt _
  | scalar s => exact .halt _
  | carrier k => exact .halt _

theorem Discreet.take (cs : Carriers) (source : CarrierSource) : Discreet (cs.take source) := by
  cases source with
  | argument =>
    rw [Carriers.take]
    cases cs.argument with
    | some k => exact .pure _
    | none => exact Discreet.newCarrier.bind fun k => .pure _
  | transient =>
    rw [Carriers.take]
    cases cs.transient with
    | some k => exact .pure _
    | none => exact Discreet.newCarrier.bind fun k => .pure _

theorem Discreet.loadAll (parameters : Option (List Value)) (as : List Operand) :
    Discreet (Operand.loadAll parameters as) := by
  induction as with
  | nil => exact .pure _
  | cons a as ih =>
    refine Discreet.bind ?_ fun v => ih.bind fun vs => .pure _
    cases a with
    | literal v => exact .pure v
    | parameter index type =>
      rw [Operand.load]
      cases (parameters.getD [])[index]? with
      | some v => exact .cast v type
      | none => exact .halt _

theorem Discreet.arguments (b : BaseCall) (cs : Carriers) : Discreet (b.arguments cs) := by
  rw [BaseCall.arguments]
  split
  · exact (Discreet.take cs _).bind fun r => .pure _
  · exact .pure _

theorem Discreet.enter (t : Ty) (k count : Nat) : Discreet (TracedCalls.enter t k count) := by
  intro w
  rw [TracedCalls.enter, get_bind]
  split
  · exact .refl w
  · cases w.schema.constructorFor t k count with
    | error e => exact .refl w
    | ok decl =>
      cases hn : w.newObject t with
      | none =>
        exact .refl w
      | some ow =>
        obtain ⟨o, w'⟩ := ow
        obtain ⟨_, _, -, -, hw', -, hadds, -⟩ := World.newObject_spec hn
        show w.Discreet w'
        rw [hw']
        exact .of_heap hadds.carriers

end Run

/-! ## Runs whose notes account for them -/

namespace Traced

variable {α β : Type} {x : Traced α}

/-- Whatever the world, and however the run ends, the notes account for it. -/
def Accounted (x : Traced α) : Prop := ∀ w : World, w.Accounts (x.notes w) (x.run w).2

theorem Accounted.pure (a : α) : Accounted (Pure.pure a) := fun w => .refl w

theorem Accounted.lift {x : Run α} (h : x.Discreet) : Accounted (lift x) := fun w =>
  (h w).accounts

theorem Accounted.bind {f : α → Traced β} (hx : Accounted x) (hf : ∀ a, Accounted (f a)) :
    Accounted (x >>= f) := by
  intro w
  have h := hx w
  show w.Accounts (x.notes w ++ following x.run (fun a => (f a).notes) w)
    ((x.run >>= fun a => (f a).run) w).2
  rw [bind_run, following]
  cases hxw : x.run w with
  | mk r w' =>
    rw [hxw] at h
    cases r with
    | error e =>
      rw [List.append_nil]
      exact h
    | ok a => exact h.trans (hf a w')

theorem Accounted.map {f : α → β} (hx : Accounted x) : Accounted (f <$> x) :=
  hx.bind fun a => .pure (f a)

theorem Accounted.outcome (hx : Accounted x) : Accounted x.outcome := hx

theorem Accounted.withParameters {k : CarrierId} {parameters : Option (List Value)}
    (hx : Accounted x) : Accounted (Traced.withParameters k parameters x) := by
  intro w
  have h := hx (w.hold k parameters)
  show w.Accounts _ (Run.withParameters k parameters x.run w).2
  rw [withParameters_run]
  cases parameters with
  | none => exact h
  | some vs =>
    refine ⟨h.events, fun e he => ?_, fun j hr hi => ?_, fun j hr hi => ?_⟩
    · exact h.seen e ((List.mem_cons.mp he).resolve_left fun h => nomatch h)
    · have hr := fun h => hr (List.mem_cons_of_mem _ h)
      show (((x.run (w.hold k (some vs))).2.heap.setParameters k none).parameters? j) = none
      by_cases hj : k = j
      · rw [hj, Heap.parameters?_setParameters_none]
      · rw [Heap.parameters?_setParameters_of_ne hj]
        refine h.installed j hr ((List.mem_cons.mp hi).resolve_left fun he => hj ?_)
        exact (Note.installed.inj he).symm
    · have hr := fun h => hr (List.mem_cons_of_mem _ h)
      have hj : k ≠ j := fun he => hi (he ▸ List.mem_cons_self)
      show (((x.run (w.hold k (some vs))).2.heap.setParameters k none).parameters? j) = _
      rw [Heap.parameters?_setParameters_of_ne hj,
        h.untouched j hr fun h => hi (List.mem_cons_of_mem _ h)]
      exact Heap.parameters?_setParameters_of_ne hj

theorem Accounted.replaceParameters (k : CarrierId) (values : Option (List Value)) :
    Accounted (Traced.replaceParameters k values) := by
  intro w
  refine ⟨rfl, fun e he => ?_, fun j _ hi => ?_, fun j hr _ => ?_⟩
  · cases List.mem_singleton.mp he
  · cases List.mem_singleton.mp hi
  · have hj : k ≠ j := fun he => hr (he ▸ List.mem_singleton.mpr rfl)
    exact Heap.parameters?_setParameters_of_ne hj

end Traced

/-- A creation that ends is reported if it has failed, and only then. -/
theorem Descriptor.conclude_accounted (d : Descriptor) (r : Creation) : (d.conclude r).Accounted := by
  intro w
  refine ⟨?_, fun e he => ?_, fun k _ hi => ?_, fun k _ _ => ?_⟩
  · cases r <;> rfl
  · cases List.mem_singleton.mp he
  · cases List.mem_singleton.mp hi
  · cases r <;> rfl

/-! ## Every construct -/

/-- The notes of calls account for them. -/
structure TracedCalls.Accounted (c : TracedCalls) : Prop where
  read : ∀ o name, (c.read o name).Accounted
  write : ∀ o name v, (c.write o name v).Accounted
  construct : ∀ t k args, (c.construct t k args).Accounted
  chain : ∀ t k o args, (c.chain t k o args).Accounted

mutual

theorem Term.accounted {c : TracedCalls} (hc : c.Accounted) {f : Frame} (t : Term) :
    (t.traced c f).Accounted := by
  cases t with
  | property name => exact (Accounted.lift (.object _)).bind fun o => hc.read o name
  | propertyOf target name =>
    rw [Term.traced]
    exact (Term.accounted hc target).bind fun v =>
      (Accounted.lift (.object v)).bind fun o => hc.read o name
  | construct type k args =>
    have hlast : ∀ t, Traced.Accounted
        (do let vs ← Term.tracedAll c f args; return .object (← c.construct t k vs) : Traced Value) :=
      fun t =>
      (Term.accountedAll hc args).bind fun vs => (hc.construct t k vs).bind fun o => .pure _
    cases type with
    | none =>
      rw [Term.traced]
      exact (Accounted.lift (.classAtHand f)).bind hlast
    | some t =>
      rw [Term.traced]
      exact hlast t
  | value v => exact .lift (.pure v)
  | argument index => exact .lift (.pure _)
  | field name =>
    exact .lift ((Discreet.object _).bind fun o => (Discreet.check _).bind fun k => .check _)
  | this => exact .lift (.pure _)
  | className => exact .lift ((Discreet.object _).bind fun o => (Discreet.ask _).bind fun _ => .pure _)
  | parameterCount index => exact .lift ((Discreet.ask _).bind fun _ => .pure _)
  | parameter index i => exact .lift ((Discreet.ask _).bind fun _ => .pure _)
  | owner => exact .lift (.pure _)
  | infoType => exact .lift ((Discreet.ask _).bind fun _ => .pure _)
  | infoName => exact .lift (.pure _)
termination_by sizeOf t

theorem Term.accountedAll {c : TracedCalls} (hc : c.Accounted) {f : Frame} (ts : List Term) :
    (Term.tracedAll c f ts).Accounted := by
  cases ts with
  | nil => exact .pure _
  | cons t ts =>
    rw [Term.tracedAll]
    exact (Term.accounted hc t).bind fun v => (Term.accountedAll hc ts).bind fun vs => .pure _
termination_by sizeOf ts

end

section
variable {c : TracedCalls} (hc : c.Accounted) {f : Frame} {o : ObjectId}
include hc

theorem Action.accounted (a : Action) : (a.traced c f).Accounted := by
  cases a with
  | setField name t =>
    exact (t.accounted hc).bind fun v => .lift ((Discreet.object _).bind fun o =>
      (Discreet.check _).bind fun k => .setField o k v)
  | setProperty name t =>
    exact (t.accounted hc).bind fun v =>
      (Accounted.lift (.object _)).bind fun o => hc.write o name v
  | setPropertyOf target name t =>
    exact (target.accounted hc).bind fun u => (Accounted.lift (.object u)).bind fun o =>
      (t.accounted hc).bind fun v => hc.write o name v
  | log t => exact (t.accounted hc).bind fun v => .lift (.display _ v fun _ => rfl)
  | chain type k args =>
    exact (Term.accountedAll hc args).bind fun vs =>
      (Accounted.lift (.object _)).bind fun o => hc.chain type k o vs
  | setParameters index values =>
    rw [Action.traced]
    cases f.carrier? index with
    | none => exact .pure _
    | some k =>
      cases values with
      | none => exact .replaceParameters k none
      | some ts => exact (Term.accountedAll hc ts).bind fun vs => .replaceParameters k (some vs)
  | give t => exact .lift (.pure _)
  | throw message => exact .lift (.halt _)
  | throwTimes site count message =>
    refine .lift ((Discreet.ask _).bind fun n => ?_)
    split
    · exact Discreet.bind (x := modify fun w => { w with spent := site :: w.spent })
        (fun w => ⟨⟨[], rfl, fun _ he => (List.not_mem_nil he).elim⟩, rfl⟩) fun _ => .halt _
    · exact .pure _
  | panic reason => exact .lift (.halt _)

theorem Routine.accounted (r : Routine) : (Routine.traced c f r).Accounted := by
  induction r with
  | nil => exact .pure _
  | cons a rest ih =>
    have hnext : Traced.Accounted (do a.traced c f; Routine.traced c f rest : Traced Value) :=
      (a.accounted hc).bind fun _ => ih
    cases a with
    | give t => exact t.accounted hc
    | setField name t => exact hnext
    | setProperty name t => exact hnext
    | setPropertyOf target name t => exact hnext
    | throw message => exact hnext
    | throwTimes site count message => exact hnext
    | panic reason => exact hnext
    | log t => exact hnext
    | chain type k args => exact hnext
    | setParameters index values => exact hnext

theorem ValueMember.read_accounted (m : ValueMember) (v : Value) :
    (m.tracedRead c v).Accounted := by
  rw [tracedRead]
  refine (Accounted.lift (.holder m v)).bind fun o => ?_
  cases m.place with
  | field slot => exact .lift (.check _)
  | property readable writable => exact hc.read o m.name

theorem ValueMember.write_accounted (m : ValueMember) (v new : Value) :
    (m.tracedWrite c v new).Accounted := by
  rw [tracedWrite]
  refine (Accounted.lift (.holder m v)).bind fun o => ?_
  cases m.place with
  | field slot => exact .lift (.setField o slot new)
  | property readable writable => exact hc.write o m.name new

theorem Getter.accounted (g : Getter) : (g.traced c o).Accounted := by
  cases g with
  | routine body => exact Routine.accounted hc body
  | through i member type =>
    refine (Accounted.lift (.check _)).bind fun holder => ?_
    refine (member.read_accounted hc holder).bind fun v => ?_
    cases type with
    | none => exact .pure v
    | some t => exact .lift (.cast v t)
  | slot i => exact .lift (.check _)
  | isAbsent => exact .lift ((Discreet.isPresent o).bind fun _ => .pure _)
  | wrapped type =>
    refine .lift ((Discreet.isPresent o).bind fun present => ?_)
    split
    · exact .check _
    · exact .halt _

theorem Setter.accounted (s : Setter) (v : Value) : (s.traced c o v).Accounted := by
  cases s with
  | routine body => exact (Routine.accounted hc body).map
  | through i member type =>
    exact (Accounted.lift (.cast v type)).bind fun u =>
      (Accounted.lift (.check _)).bind fun holder => member.write_accounted hc holder u
  | slot i => exact .lift (.setField o i v)
  | slotOf i type => exact .lift ((Discreet.cast v type).bind fun u => .setField o i u)
  | wrapped kind => exact .lift (.present kind o v)

theorem Descriptor.guarded_accounted (d : Descriptor) (k : Nat) (args : List Value) :
    (d.tracedGuarded c k args).Accounted := by
  refine (hc.construct d.product k args).outcome.bind fun r => ?_
  cases creationOf r with
  | some r => exact d.conclude_accounted r
  | none => exact .lift (.halt _)

theorem Descriptor.create_accounted (d : Descriptor) (given : Option CarrierId) :
    (d.tracedCreate c given).Accounted := by
  cases given with
  | none =>
    rw [tracedCreate]
    cases d.defaultConstructor with
    | none => exact d.conclude_accounted _
    | some k => exact d.guarded_accounted hc k []
  | some carrier =>
    rw [tracedCreate]
    cases d.factoryConstructor with
    | none => exact d.conclude_accounted _
    | some k => exact d.guarded_accounted hc k _

theorem BuildStep.build_accounted (step : BuildStep) (cs : Carriers) :
    (step.tracedBuild c cs).Accounted := by
  rw [tracedBuild]
  cases step.source with
  | lookup l source =>
    refine (Accounted.lift (.resolve l)).bind fun d => ?_
    refine (Accounted.lift (.take cs source)).bind fun r => ?_
    refine (d.create_accounted hc _).withParameters.bind fun creation => ?_
    exact (Accounted.lift (.ask _)).bind fun v => .pure _
  | direct target k args =>
    exact (Accounted.lift (.loadAll _ args)).bind fun vs =>
      (hc.construct target k vs).bind fun o => .pure _
  | withCarrier target k source =>
    refine (Accounted.lift (.take cs source)).bind fun r => ?_
    exact (hc.construct target k _).withParameters.bind fun o => .pure _

theorem BuildStep.accounted (step : BuildStep) (cs : Carriers) :
    (step.traced c o cs).Accounted :=
  (step.build_accounted hc cs).bind fun r =>
    (Accounted.lift (.setField o step.slot r.1)).bind fun _ => .pure r.2

theorem BuildStep.accountedAll (steps : List BuildStep) (cs : Carriers) :
    (BuildStep.tracedAll c o steps cs).Accounted := by
  induction steps generalizing cs with
  | nil => exact .pure cs
  | cons step steps ih => exact (step.accounted hc cs).bind fun cs' => ih cs'

theorem InfoStep.accounted (i : InfoStep) : (i.traced c o).Accounted := by
  refine (Accounted.lift (.check _)).bind fun v => ?_
  cases v with
  | object target =>
    refine (Accounted.lift (.ask _)).bind fun body => ?_
    cases body with
    | some body => exact (Routine.accounted hc body).map
    | none => exact .lift ((Discreet.ask _).bind fun _ => .halt _)
  | null => exact .lift (.halt _)
  | scalar s => exact .lift (.halt _)
  | carrier k => exact .lift (.halt _)

theorem InfoStep.accountedAll (is : List InfoStep) : (InfoStep.tracedAll c o is).Accounted := by
  induction is with
  | nil => exact .pure _
  | cons i is ih => exact (i.accounted hc).bind fun _ => ih

theorem BaseCall.accounted (b : BaseCall) (cs : Carriers) : (b.traced c o cs).Accounted :=
  (Accounted.lift (.arguments b cs)).bind fun args => hc.chain b.target b.constructor o args

theorem ConstructionPlan.accounted (p : ConstructionPlan) (args : List Value) :
    (p.traced c o args).Accounted := by
  refine (BuildStep.accountedAll hc p.steps _).bind fun cs => ?_
  refine (InfoStep.accountedAll hc p.infos).bind fun _ => ?_
  cases p.base with
  | none => exact .pure _
  | some b => exact b.accounted hc cs

theorem ConstructorBody.accounted (b : ConstructorBody) (args : List Value) :
    (b.traced c o args).Accounted := by
  cases b with
  | routine body => exact (Routine.accounted hc body).map
  | chain base =>
    cases base with
    | none => exact .lift (.pure _)
    | some tk => exact hc.chain tk.1 tk.2 o []
  | wrapped kind => exact .lift (.present kind o _)
  | plan p => exact p.accounted hc args

end

/-- **Notes account for every run**, to any depth of nested calls. -/
theorem TracedCalls.nested_accounted (depth : Nat) : (nested depth).Accounted := by
  induction depth with
  | zero =>
    exact ⟨fun _ _ => .lift (.halt _), fun _ _ _ => .lift (.halt _), fun _ _ _ => .lift (.halt _),
      fun _ _ _ _ => .lift (.halt _)⟩
  | succ depth ih =>
    refine ⟨fun o name => ?_, fun o name v => ?_, fun t k args => ?_, fun t k o args => ?_⟩
    · exact (Accounted.lift (.check _)).bind fun getter => getter.accounted ih
    · exact (Accounted.lift (.check _)).bind fun setter => setter.accounted ih v
    · exact (Accounted.lift (.enter t k _)).bind fun r =>
        (r.2.body.accounted ih args).bind fun _ => .pure r.1
    · exact (Accounted.lift (.check _)).bind fun decl => decl.body.accounted ih args

end RecordForge
