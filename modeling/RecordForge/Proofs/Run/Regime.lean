import RecordForge.Proofs.Run.Basic
import RecordForge.Proofs.Schema.Literals

/-!
# What every run keeps to

Whatever bodies do to a world, they do in a few ways: they store values into objects, create objects
and carriers, replace the parameters of carriers, let an observer see something, and have lookups
resolved. A `Regime` is a statement about worlds that holds of each of these: worlds change along
`Leads` only, as long as bodies come across no other values than those in `Admits`. Then it holds of
every run, to any depth of nested calls (`Regime.nested_lawful`).

Bodies may store into objects that are open to them. An object that is not is a nullable wrapper
(`World.Encloses`): nothing is done to it but what the built-in bodies of its class do, and a regime says
what comes of that. In most regimes all objects are open (`Regime.IsOpen`).

The proof has one lemma for each construct of the language of bodies. Each says what the construct
keeps, given that the calls it makes do (`Regime.Lawful`); the calls are tied to bodies by induction
on the depth.
-/

namespace RecordForge

/-- The class of an object has no bodies but those of a nullable wrapper of a kind. -/
structure World.Encloses (w : World) (κ : Kind) (o : ObjectId) : Prop where
  getter : ∀ {name g}, w.schema.getterFor (w.classOf o) name = .ok g →
    g = .isAbsent ∨ ∃ type, g = .wrapped type
  setter : ∀ {name g}, w.schema.setterFor (w.classOf o) name = .ok g → g = .wrapped κ
  constructor : ∀ {k n d}, w.schema.constructorFor (w.classOf o) k n = .ok d →
    d.body = .wrapped κ ∨ d.body = .chain none
  receiver : w.schema.receiver? (w.classOf o) = none

/-- What bodies keep to: the worlds in which they run, the values that they may come across, the objects
into which they may store, and how a world may change. -/
structure Regime where
  Inv : World → Prop
  Admits : World → Value → Prop
  Opens : World → ObjectId → Prop
  Leads : World → World → Prop
  refl : ∀ w, Leads w w
  trans : ∀ {w₁ w₂ w₃}, Leads w₁ w₂ → Leads w₂ w₃ → Leads w₁ w₃
  inv : ∀ {w w'}, Inv w → Leads w w' → Inv w'
  mono : ∀ {w w' v}, Leads w w' → Admits w v → Admits w' v
  opens_mono : ∀ {w w' o}, Leads w w' → Opens w o → Opens w' o
  admits : ∀ {w o}, Opens w o → Admits w (.object o)
  /-- A wrapper that is not open is given its value by its own bodies. -/
  encloses : ∀ {w o}, Inv w → Admits w (.object o) → Opens w o ∨
    ∃ κ, w.Encloses κ o ∧ ∀ v, Admits w v → Leads w (Run.present κ o v w).2
  literal : ∀ {w v}, v.isLiteral = true → Admits w v
  literals : ∀ {w}, Inv w → w.schema.Literals (Admits w)
  field : ∀ {w o k v}, Inv w → Admits w (.object o) → w.field o k = .ok v → Admits w v
  parameters : ∀ {w c vs}, Inv w → Admits w (.carrier c) → w.heap.parameters? c = some vs →
    ∀ v ∈ vs, Admits w v
  store : ∀ {w w' o k v}, Inv w → Opens w o → Admits w v → w.setField o k v = .ok w' → Leads w w'
  allocate : ∀ {w w' t o}, Inv w → w.newObject t = some (o, w') → Leads w w' ∧ Admits w' (.object o)
  carrier : ∀ {w c h}, Inv w → w.heap.newCarrier = (c, h) →
    Leads w { w with heap := h } ∧ Admits { w with heap := h } (.carrier c)
  setParameters : ∀ {w c values}, Inv w → Admits w (.carrier c) →
    (∀ vs ∈ values, ∀ v ∈ vs, Admits w v) →
    Leads w { w with heap := w.heap.setParameters c values }
  observe : ∀ w e, Leads w (w.observe e)
  spend : ∀ w site, Leads w { w with spent := site :: w.spent }
  resolve : ∀ {w w' l d}, Inv w → w.resolve l = .ok (d, w') → Leads w w'

namespace Regime

open Run

variable {G : Regime} {α β : Type} {w : World} {c : Calls} {f : Frame} {o : ObjectId}

/-- All objects that bodies come across are open to them. -/
class IsOpen (G : Regime) : Prop where
  opens : ∀ {w o}, G.Admits w (.object o) → G.Opens w o

/-- A constructor of a type may be run on an object that is open, or of the type. -/
def Receives (G : Regime) (w : World) (t : Ty) (o : ObjectId) : Prop :=
  G.Opens w o ∨ G.Admits w (.object o) ∧ w.classOf o = t

/-! ## Runs from a world -/

/-- From a world, a run leads on, and a result has a property in the world that it leads to. -/
def Keeps (G : Regime) (w : World) (x : Run α) (Q : World → α → Prop) : Prop :=
  G.Leads w (x w).2 ∧ ∀ a, (x w).1 = .ok a → Q (x w).2 a

namespace Keeps

variable {x : Run α} {Q Q' : World → α → Prop} {R : World → β → Prop}

theorem imp (hx : G.Keeps w x Q) (h : ∀ w' a, Q w' a → Q' w' a) : G.Keeps w x Q' :=
  ⟨hx.1, fun a ha => h _ a (hx.2 a ha)⟩

theorem pure {a : α} (h : Q w a) : G.Keeps w (Pure.pure a) Q :=
  ⟨G.refl w, fun _ hb => by cases hb; exact h⟩

theorem halt {e : Halt} : G.Keeps w (Run.halt e) Q := ⟨G.refl w, fun _ hb => by cases hb⟩

theorem fail {e : Fault} : G.Keeps w (Run.fail e) Q := halt

theorem bind {f : α → Run β} (hw : G.Inv w) (hx : G.Keeps w x Q)
    (hf : ∀ w' a, G.Inv w' → G.Leads w w' → Q w' a → G.Keeps w' (f a) R) :
    G.Keeps w (x >>= f) R := by
  obtain ⟨hleads, hresult⟩ := hx
  rw [Keeps, bind_run]
  cases hxw : x w with
  | mk a w' =>
    rw [hxw] at hleads hresult
    cases a with
    | error e => exact ⟨hleads, fun _ hb => by cases hb⟩
    | ok a =>
      obtain ⟨hleads', hresult'⟩ := hf w' a (G.inv hw hleads) hleads (hresult a rfl)
      exact ⟨G.trans hleads hleads', hresult'⟩

theorem map {f : α → β} (hw : G.Inv w) (hx : G.Keeps w x Q) (hf : ∀ w' a, Q w' a → R w' (f a)) :
    G.Keeps w (f <$> x) R := by
  have hbind : G.Keeps w (x >>= fun a => Pure.pure (f a)) R :=
    hx.bind hw fun w' a _ _ ha => .pure (hf w' a ha)
  rw [Keeps, map_run]
  exact hbind

theorem discard (hw : G.Inv w) (hx : G.Keeps w x Q) :
    G.Keeps w (discard x) fun _ _ => True :=
  hx.map hw fun _ _ _ => trivial

theorem get : G.Keeps w (MonadState.get : Run World) fun w' a => w' = w ∧ a = w :=
  ⟨G.refl w, fun _ hb => by cases hb; exact ⟨rfl, rfl⟩⟩

theorem set {w' : World} (h : G.Leads w w') : G.Keeps w (MonadState.set w' : Run Unit)
    fun w₁ _ => w₁ = w' := ⟨h, fun _ _ => rfl⟩

theorem ask {q : World → α} (h : Q w (q w)) : G.Keeps w (Run.ask q) Q :=
  ⟨G.refl w, fun _ hb => by cases hb; exact h⟩

theorem ofExcept {y : Except Fault α} (h : ∀ a, y = .ok a → Q w a) :
    G.Keeps w (Run.ofExcept y) Q := by
  cases y with
  | ok a => exact .pure (h a rfl)
  | error e => exact fail

theorem check {q : World → Except Fault α} (h : ∀ a, q w = .ok a → Q w a) :
    G.Keeps w (Run.check q) Q := ofExcept (y := q w) h

theorem attempt {q : World → Except Halt α} (h : ∀ a, q w = .ok a → Q w a) :
    G.Keeps w (Run.attempt q) Q := by
  rw [Keeps, attempt_run]
  exact ⟨G.refl w, h⟩

theorem change {step : World → Except Fault World} (h : ∀ w', step w = .ok w' → G.Leads w w') :
    G.Keeps w (Run.change step) fun _ _ => True := by
  rw [Keeps, change_run]
  cases hstep : step w with
  | ok w' => exact ⟨h w' hstep, fun _ _ => trivial⟩
  | error e => exact ⟨G.refl w, fun _ _ => trivial⟩

theorem modify {g : World → World} (h : G.Leads w (g w)) :
    G.Keeps w (modify g : Run Unit) fun _ _ => True := ⟨h, fun _ _ => trivial⟩

theorem outcome (hx : G.Keeps w x Q) :
    G.Keeps w (Run.outcome x) fun w' r => ∀ a, r = .ok a → Q w' a := by
  rw [Keeps, outcome_run]
  exact ⟨hx.1, fun r hr => by cases hr; exact hx.2⟩

/-- What holds of a result goes on to hold while something else is done in the end. -/
theorem ensuring {after : Run Unit} (hw : G.Inv w) (hx : G.Keeps w x Q)
    (hafter : ∀ w', G.Inv w' → G.Leads w w' → G.Keeps w' after fun _ _ => True)
    (hQ : ∀ {w₁ w₂ a}, G.Leads w₁ w₂ → Q w₁ a → Q w₂ a) : G.Keeps w (Run.ensuring x after) Q := by
  obtain ⟨hleads, hresult⟩ := hx
  have hlast := hafter _ (G.inv hw hleads) hleads
  rw [Keeps, ensuring_run]
  cases hres : (x w).1 with
  | ok a =>
    have hend : G.Keeps (x w).2 (after >>= fun _ => Pure.pure a) Q :=
      hlast.bind (G.inv hw hleads) fun w' _ _ hl _ => .pure (hQ hl (hresult a hres))
    exact ⟨G.trans hleads hend.1, hend.2⟩
  | error e =>
    have hend : G.Keeps (x w).2 (after >>= fun _ => (Run.halt e : Run α)) Q :=
      hlast.bind (G.inv hw hleads) fun w' _ _ _ _ => .halt
    exact ⟨G.trans hleads hend.1, hend.2⟩

end Keeps

/-! ## The effects of bodies -/

section
variable (hw : G.Inv w)
include hw

theorem keeps_setField {k : Nat} {v : Value} (ho : G.Opens w o) (hv : G.Admits w v) :
    G.Keeps w (change (·.setField o k v)) fun _ _ => True :=
  .change fun _ h => G.store hw ho hv h

theorem keeps_field {k : Nat} (ho : G.Admits w (.object o)) :
    G.Keeps w (check (·.field o k)) G.Admits :=
  .check fun _ h => G.field hw ho h

theorem keeps_display {event : Picture → Event} {v : Value} :
    G.Keeps w (display event v) fun _ _ => True :=
  Keeps.bind hw (.ask (Q := fun _ _ => True) trivial) fun w' p _ _ _ =>
    .modify (G.observe w' (event p))

theorem keeps_newCarrier : G.Keeps w newCarrier fun w' k => G.Admits w' (.carrier k) := by
  obtain ⟨hleads, hadmits⟩ := G.carrier hw (c := w.heap.newCarrier.1) (h := w.heap.newCarrier.2) rfl
  exact ⟨hleads, fun _ hb => by cases hb; exact hadmits⟩

theorem keeps_setParameters {k : CarrierId} {values : Option (List Value)}
    (hk : G.Admits w (.carrier k)) (hvs : ∀ vs ∈ values, ∀ v ∈ vs, G.Admits w v) :
    G.Keeps w (Run.setParameters k values) fun _ _ => True :=
  .modify (G.setParameters hw hk hvs)

theorem keeps_resolve {l : LookupId} : G.Keeps w (Run.resolve l) fun _ _ => True := by
  rw [Keeps, resolve_run]
  cases h : w.resolve l with
  | ok dw => exact ⟨G.resolve hw (l := l) (d := dw.1) h, fun _ _ => trivial⟩
  | error e => exact ⟨G.refl w, fun _ _ => trivial⟩

end

/-! ## Calls and frames -/

/-- The calls of a body keep to the regime. -/
structure Lawful (G : Regime) (c : Calls) : Prop where
  read : ∀ {w o} (name : String), G.Inv w → G.Admits w (.object o) →
    G.Keeps w (c.read o name) G.Admits
  write : ∀ {w o} (name : String) {v}, G.Inv w → G.Admits w (.object o) → G.Admits w v →
    G.Keeps w (c.write o name v) fun _ _ => True
  construct : ∀ {w} (t : Ty) (k : Nat) {vs}, G.Inv w → (∀ v ∈ vs, G.Admits w v) →
    G.Keeps w (c.construct t k vs) fun w' o => G.Admits w' (.object o)
  chain : ∀ {w} (t : Ty) (k : Nat) {o vs}, G.Inv w → G.Receives w t o →
    (∀ v ∈ vs, G.Admits w v) → G.Keeps w (c.chain t k o vs) fun _ _ => True

/-- What a routine may refer to is admitted, and the object that it belongs to is open. -/
structure Fits (G : Regime) (w : World) (f : Frame) : Prop where
  this : ∀ o ∈ f.this, G.Opens w o
  args : ∀ v ∈ f.args, G.Admits w v
  owner : ∀ i ∈ f.info, G.Admits w (.object i.owner)

theorem Fits.mono {w' : World} (h : G.Leads w w') (hf : G.Fits w f) : G.Fits w' f :=
  ⟨fun o ho => G.opens_mono h (hf.this o ho), fun v hv => G.mono h (hf.args v hv),
    fun i hi => G.mono h (hf.owner i hi)⟩

theorem Fits.argument (hf : G.Fits w f) (index : Nat) : G.Admits w (f.argument index) := by
  rw [Frame.argument, List.getD_eq_getElem?_getD]
  cases h : f.args[index]? with
  | none => exact G.literal rfl
  | some v => exact hf.args v (List.mem_of_getElem? h)

theorem Fits.carrier (hf : G.Fits w f) {index : Nat} {k : CarrierId}
    (hk : f.carrier? index = some k) : G.Admits w (.carrier k) := by
  have hadmits := hf.argument index
  rw [Frame.carrier?] at hk
  cases hv : f.argument index with
  | carrier k' =>
    rw [hv] at hk hadmits
    obtain rfl := Option.some.inj hk
    exact hadmits
  | null => rw [hv] at hk; cases hk
  | scalar s => rw [hv] at hk; cases hk
  | object o => rw [hv] at hk; cases hk

/-! ## Routines -/

theorem keeps_object {v : Value} (hv : G.Admits w v) :
    G.Keeps w (object v) fun w' o => G.Admits w' (.object o) := by
  cases v with
  | object o => exact .pure hv
  | null => exact .fail
  | scalar s => exact .fail
  | carrier k => exact .fail

theorem keeps_thisObject (hf : G.Fits w f) : G.Keeps w (thisObject f) G.Opens := by
  rw [thisObject]
  cases hthis : f.this with
  | none => exact .fail
  | some o => exact .pure (hf.this o hthis)

theorem keeps_classAtHand (hw : G.Inv w) (hf : G.Fits w f) :
    G.Keeps w (classAtHand f) fun _ _ => True := by
  rw [classAtHand]
  cases f.declaring with
  | some t => exact .pure trivial
  | none => exact (keeps_thisObject hf).bind hw fun w' o _ _ _ => .ask trivial

theorem keeps_readField (hw : G.Inv w) (ho : G.Admits w (.object o)) (name : String) :
    G.Keeps w (readField o name) G.Admits :=
  Keeps.bind hw (.check (Q := fun _ _ => True) fun _ _ => trivial) fun _ _ hw' hl _ =>
    keeps_field hw' (G.mono hl ho)

theorem keeps_writeField (hw : G.Inv w) (ho : G.Opens w o) (name : String) {v : Value}
    (hv : G.Admits w v) : G.Keeps w (writeField o name v) fun _ _ => True :=
  Keeps.bind hw (.check (Q := fun _ _ => True) fun _ _ => trivial) fun _ _ hw' hl _ =>
    keeps_setField hw' (G.opens_mono hl ho) (G.mono hl hv)

mutual

/-- The value of a term is admitted. -/
theorem keeps_eval (hc : G.Lawful c) {w : World} {t : Term} (hw : G.Inv w) (hf : G.Fits w f)
    (ht : t.All (G.Admits w)) : G.Keeps w (t.eval c f) G.Admits := by
  cases t with
  | value v => rw [Term.eval]; exact .pure ht
  | argument index => rw [Term.eval]; exact .pure (hf.argument index)
  | field name =>
    rw [Term.eval]
    exact (keeps_thisObject hf).bind hw fun w' o hw' _ ho => keeps_readField hw' (G.admits ho) name
  | property name =>
    rw [Term.eval]
    exact (keeps_thisObject hf).bind hw fun w' o hw' _ ho => hc.read name hw' (G.admits ho)
  | propertyOf target name =>
    rw [Term.eval]
    refine (keeps_eval hc (t := target) hw hf ht).bind hw fun w₁ v hw₁ _ hv => ?_
    exact (keeps_object hv).bind hw₁ fun w₂ o hw₂ _ ho => hc.read name hw₂ ho
  | this =>
    rw [Term.eval]
    refine .pure ?_
    cases hthis : f.this with
    | none => exact G.literal rfl
    | some o => exact G.admits (hf.this o hthis)
  | className =>
    rw [Term.eval]
    refine (keeps_thisObject hf).bind hw fun w₁ o hw₁ _ _ => ?_
    exact Keeps.bind hw₁ (.ask (Q := fun _ _ => True) trivial) fun _ _ _ _ _ => .pure (G.literal rfl)
  | parameterCount index =>
    rw [Term.eval]
    exact Keeps.bind hw (.ask (Q := fun _ _ => True) trivial) fun _ _ _ _ _ => .pure (G.literal rfl)
  | parameter index i =>
    rw [Term.eval]
    have hask : G.Keeps w (Run.ask fun w => (f.carrier? index).bind w.heap.parameters?)
        fun w' held => ∀ v ∈ held.getD [], G.Admits w' v := by
      refine .ask fun v hv => ?_
      cases hk : f.carrier? index with
      | none => simp [hk] at hv
      | some k =>
        simp only [hk, Option.bind_some] at hv
        cases hp : w.heap.parameters? k with
        | none => simp [hp] at hv
        | some vs => exact G.parameters hw (hf.carrier hk) hp v (by simpa [hp] using hv)
    refine hask.bind hw fun w' held _ _ hheld => .pure ?_
    rw [List.getD_eq_getElem?_getD]
    cases hi : (held.getD [])[i]? with
    | none => exact G.literal rfl
    | some v => exact hheld v (List.mem_of_getElem? hi)
  | construct type k args =>
    have hlast : ∀ w₁ t, G.Inv w₁ → G.Leads w w₁ → G.Keeps w₁
        (do let values ← Term.evalAll c f args; return .object (← c.construct t k values) : Run Value)
        G.Admits := by
      intro w₁ t hw₁ hl
      have hargs : Term.AllList (G.Admits w₁) args :=
        Term.AllList.imp (fun _ => G.mono hl)
          (show Term.AllList (G.Admits w) args from ht)
      refine (keeps_evalAll hc hw₁ (hf.mono hl) hargs).bind hw₁ fun w₂ vs hw₂ _ hvs => ?_
      exact (hc.construct t k hw₂ hvs).bind hw₂ fun _ _ _ _ ho => .pure ho
    cases type with
    | some t =>
      rw [Term.eval]
      exact hlast w t hw (G.refl w)
    | none =>
      rw [Term.eval]
      exact (keeps_classAtHand hw hf).bind hw fun w₁ t hw₁ hl _ => hlast w₁ t hw₁ hl
  | owner =>
    rw [Term.eval]
    refine .pure ?_
    cases hinfo : f.info with
    | none => exact G.literal rfl
    | some i => exact hf.owner i hinfo
  | infoType =>
    rw [Term.eval]
    refine Keeps.bind hw (.ask (Q := fun _ _ => True) trivial) fun _ name _ _ _ => .pure ?_
    cases name <;> exact G.literal rfl
  | infoName =>
    rw [Term.eval]
    refine .pure ?_
    cases f.info <;> exact G.literal rfl
termination_by sizeOf t

/-- So are the values of terms. -/
theorem keeps_evalAll (hc : G.Lawful c) {w : World} {ts : List Term} (hw : G.Inv w) (hf : G.Fits w f)
    (hts : Term.AllList (G.Admits w) ts) :
    G.Keeps w (Term.evalAll c f ts) fun w' vs => ∀ v ∈ vs, G.Admits w' v := by
  cases ts with
  | nil => rw [Term.evalAll]; exact .pure fun v hv => by cases hv
  | cons t ts =>
    rw [Term.evalAll]
    refine (keeps_eval hc hw hf hts.1).bind hw fun w₁ v hw₁ hl hv => ?_
    have hts' := Term.AllList.imp (fun _ => G.mono hl) hts.2
    refine (keeps_evalAll hc hw₁ (hf.mono hl) hts').bind hw₁ fun w₂ vs hw₂ hl₂ hvs => .pure ?_
    intro u hu
    rcases List.mem_cons.mp hu with rfl | hu
    · exact G.mono hl₂ hv
    · exact hvs u hu
termination_by sizeOf ts

end

section
variable (hc : G.Lawful c)
include hc

theorem keeps_perform {a : Action} (hw : G.Inv w) (hf : G.Fits w f) (ha : a.All (G.Admits w)) :
    G.Keeps w (a.perform c f) fun _ _ => True := by
  cases a with
  | setField name t =>
    refine (keeps_eval hc (t := t) hw hf ha).bind hw fun w₁ v hw₁ hl hv => ?_
    exact (keeps_thisObject (hf.mono hl)).bind hw₁ fun w₂ o hw₂ hl₂ ho =>
      keeps_writeField hw₂ ho name (G.mono hl₂ hv)
  | setProperty name t =>
    refine (keeps_eval hc (t := t) hw hf ha).bind hw fun w₁ v hw₁ hl hv => ?_
    exact (keeps_thisObject (hf.mono hl)).bind hw₁ fun w₂ o hw₂ hl₂ ho =>
      hc.write name hw₂ (G.admits ho) (G.mono hl₂ hv)
  | setPropertyOf target name t =>
    refine (keeps_eval hc hw hf ha.1).bind hw fun w₁ u hw₁ hl₁ hu => ?_
    refine (keeps_object hu).bind hw₁ fun w₂ o hw₂ hl₂ ho => ?_
    have hl := G.trans hl₁ hl₂
    refine (keeps_eval hc hw₂ (hf.mono hl) (ha.2.imp fun _ => G.mono hl)).bind hw₂
      fun w₃ v hw₃ hl₃ hv => ?_
    exact hc.write name hw₃ (G.mono hl₃ ho) hv
  | give t => exact .pure trivial
  | throw message => exact .fail
  | throwTimes site count message =>
    refine Keeps.bind hw (.ask (Q := fun _ _ => True) trivial) fun w₁ failed hw₁ _ _ => ?_
    split
    · exact (Keeps.modify (G.spend w₁ site)).bind hw₁ fun _ _ _ _ _ => .fail
    · exact .pure trivial
  | panic reason => exact .halt
  | log t =>
    refine (keeps_eval hc (t := t) hw hf ha).bind hw fun w₁ v hw₁ _ _ => ?_
    exact keeps_display hw₁
  | chain type k args =>
    have hargs : Term.AllList (G.Admits w) args := ha
    refine (keeps_evalAll hc hw hf hargs).bind hw fun w₁ vs hw₁ hl hvs => ?_
    exact (keeps_thisObject (hf.mono hl)).bind hw₁ fun w₂ o hw₂ hl₂ ho =>
      hc.chain type k hw₂ (.inl ho) fun v hv => G.mono hl₂ (hvs v hv)
  | setParameters index values =>
    rw [Action.perform]
    cases hk : f.carrier? index with
    | none => exact .pure trivial
    | some k =>
      cases values with
      | none => exact keeps_setParameters hw (hf.carrier hk) fun vs hvs => by cases hvs
      | some ts =>
        refine (keeps_evalAll hc hw hf (ha ts rfl)).bind hw fun w₁ vs hw₁ hl hvs => ?_
        refine keeps_setParameters hw₁ (G.mono hl (hf.carrier hk)) fun us hus => ?_
        obtain rfl := Option.some.inj hus
        exact hvs

theorem keeps_routine {r : Routine} (hw : G.Inv w) (hf : G.Fits w f) (hr : r.All (G.Admits w)) :
    G.Keeps w (Routine.run c f r) G.Admits := by
  induction r generalizing w with
  | nil => exact .pure (G.literal rfl)
  | cons a rest ih =>
    have ha := hr a List.mem_cons_self
    have hrest : Routine.All (G.Admits w) rest := fun b hb => hr b (List.mem_cons_of_mem _ hb)
    have hnext : G.Keeps w (a.perform c f >>= fun _ => Routine.run c f rest) G.Admits :=
      (keeps_perform hc hw hf ha).bind hw fun w₁ _ hw₁ hl _ =>
        ih hw₁ (hf.mono hl) (hrest.imp fun _ => G.mono hl)
    cases a with
    | give t => exact keeps_eval hc (t := t) hw hf ha
    | setField name t => exact hnext
    | setProperty name t => exact hnext
    | setPropertyOf target name t => exact hnext
    | throw message => exact hnext
    | throwTimes site count message => exact hnext
    | panic reason => exact hnext
    | log t => exact hnext
    | chain type k args => exact hnext
    | setParameters index values => exact hnext

end

end Regime

end RecordForge
