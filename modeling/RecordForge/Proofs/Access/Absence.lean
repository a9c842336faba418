import RecordForge.Proofs.Access.Initializers
import RecordForge.Proofs.Access.Sealing

/-!
# Wrappers without a value

A nullable wrapper is a value type with private slots, so its bodies decide what it can hold, as long as
nobody reaches past them. There are three ways to do so: storing into its slots from outside, running a
constructor of another class on it, and writing a property that is kept in a public field of what another
slot holds, if that has come to hold a wrapper (`World.pierces`). Calls can be made to refuse the last
(`Calls.sealed`).

In a run that does none of this (`World.Respects`) all wrappers without a value are alike: each is equal to
what the static `Null` gives, which is new each time, and faults when its value is read. All others read as
values of their kind (`World.absent_wrappers_alike`).
-/

namespace RecordForge

open Relation (ReflTransGen)
open Run

/-! ## Reaching past the bodies of wrappers -/

/-- A property is kept in a public field of what a slot holds, and that is an instance of a class. The
value may be stored there. -/
def World.pierces (w : World) (n : ClassId) (o : ObjectId) (name : String) (v : Value) : Bool :=
  match w.schema.setterFor (w.classOf o) name with
  | .ok (.through slot m t) =>
    match m.place, w.field o slot with
    | .field _, .ok (.object x) => w.classOf x == .cls n && (w.schema.cast w.heap v t).isOk
    | _, _ => false
  | _ => false

/-- Calls that may nest to a depth. A write that would reach into an instance of a class halts. -/
def Calls.sealed (n : ClassId) : Nat → Calls
  | 0 => nested 0
  | depth + 1 =>
    { read := fun o name => readStep (sealed n depth) o name
      write := fun o name v => do
        if ← ask (·.pierces n o name v) then halt .exhausted
        else writeStep (sealed n depth) o name v
      construct := fun t constructor args => constructStep (sealed n depth) t constructor args
      chain := fun t constructor o args => chainStep (sealed n depth) t constructor o args }

/-- Sealed calls give what calls give, unless they halt. -/
theorem Calls.sealed_approximates (n : ClassId) (depth : Nat) :
    (sealed n depth).Approximate (nested depth) := by
  induction depth with
  | zero => exact ⟨fun _ _ => .refl _, fun _ _ _ => .refl _, fun _ _ _ => .refl _, fun _ _ _ _ => .refl _⟩
  | succ depth ih =>
    refine ⟨readStep_approximates ih, fun o name v w => ?_, constructStep_approximates ih,
      chainStep_approximates ih⟩
    have hwrite : (sealed n (depth + 1)).write o name v w = (if w.pierces n o name v then
        halt .exhausted else writeStep (sealed n depth) o name v : Run Unit) w := rfl
    rw [hwrite]
    split
    · exact .inl rfl
    · exact writeStep_approximates ih o name v w

/-- So does a deed. -/
theorem Deed.run_of_sealed {n : ClassId} {d : Deed} {depth : Nat} {w : World}
    (h : (d.runBy (.sealed n depth) w).1.isOk = true) :
    d.run depth w = d.runBy (.sealed n depth) w := by
  rw [d.run_eq]
  refine (d.runBy_approximates _ _ (Calls.sealed_approximates n depth) w).resolve_left fun he => ?_
  rw [he] at h
  cases h

/-- A deed stores nothing into instances of a class itself, and runs no other constructors on them. -/
def Deed.Spares (n : ClassId) (w : World) : Deed → Prop
  | .chain t _ o _ => w.classOf o = .cls n → t = .cls n
  | .setField o _ _ => w.classOf o ≠ .cls n
  | .writeMember m holder _ => ∀ {k o}, m.place = .field k → holder = .object o → w.classOf o ≠ .cls n
  | .mapSet m o _ => ∀ {k}, m.access = .field k → w.classOf o ≠ .cls n
  | _ => True

/-- A deed is done that does not reach past the bodies of the instances of a class, or something else
happens and no object changes. -/
inductive World.Respects (n : ClassId) : World → World → Prop
  | deed {w : World} {d : Deed} (depth : Nat) (hd : d.Fits w) (hspares : d.Spares n w)
      (hsealed : d.run depth w = d.runBy (.sealed n depth) w) : Respects n w (d.run depth w).2
  | besides {w w' : World} (h : w.Arranges w') : Respects n w w'

namespace Regime

variable {G : Regime} {n : ClassId} {w : World}

/-- Sealed calls keep to every regime under which all but the instances of the class are open. -/
theorem sealed_lawful (depth : Nat) (hopen : ∀ {w o}, G.Inv w → G.Admits w (.object o) →
    w.classOf o ≠ .cls n → G.Opens w o) : G.Lawful (.sealed n depth) := by
  induction depth with
  | zero => constructor <;> intros <;> exact .halt
  | succ depth ih =>
    refine ⟨fun name => keeps_readStep ih name, fun {w o} name {v} hw ho hv => .ask_bind ?_,
      fun t k => keeps_constructStep ih t k, fun t k => keeps_chainStep ih t k⟩
    cases hp : w.pierces n o name v with
    | true => exact .halt
    | false =>
      refine keeps_writeStep ih name hw ho (fun {slot m t k x u} hg hm hu hx => ?_) hv
      refine hopen hw (G.field hw ho hx) fun hclass => ?_
      -- otherwise the write would have been refused
      rw [World.pierces, hg] at hp
      simp [hm, hx, hu, hclass, Except.isOk, Except.toBool] at hp

/-- So the instances of a class stay intact. -/
theorem sealed_governed (n : ClassId) (depth : Nat) : (sealing (· = n)).Governs (.sealed n depth) := by
  refine ⟨sealed_lawful depth fun {w o} hw ho hclass => ⟨ho, fun i hi hmem => ?_⟩,
    sealed_lawful depth fun _ _ _ => trivial⟩
  rw [World.classOf_eq hi, hmem] at hclass
  exact absurd rfl hclass

/-- A deed that stores nothing into the instances of a class may be done. -/
theorem grants_of_spares {d : Deed} (hd : d.Fits w) (h : d.Spares n w) :
    (sealing (· = n)).Grants w d := by
  have hopen : ∀ {o}, Value.object o ∈ d.given w → w.classOf o ≠ .cls n →
      (sealing (· = n)).Opens w o := fun {o} hmem hclass => by
    refine ⟨hd _ hmem, fun i hi he => ?_⟩
    rw [World.classOf_eq hi, he] at hclass
    exact absurd rfl hclass
  cases d with
  | chain t k o args =>
    by_cases hclass : w.classOf o = .cls n
    · exact .inr ⟨hd _ List.mem_cons_self, hclass.trans (h hclass).symm⟩
    · exact .inl (hopen List.mem_cons_self hclass)
  | setField o slot v => exact hopen List.mem_cons_self h
  | writeMember m holder v =>
    intro k o hm he
    exact hopen (he ▸ List.mem_cons_self) (h hm he)
  | mapSet m o v => exact fun {k} hm => hopen List.mem_cons_self (h hm)
  | _ => trivial

instance : (sealing fun _ => False).IsOpen := ⟨fun ho => ⟨ho, fun _ _ hmem => hmem.elim⟩⟩

end Regime

/-! ## Runs that respect wrappers -/

namespace World

variable {w w' w₁ : World} {n : ClassId} {type : String} {κ : Kind} {settable : Bool} {o x y : ObjectId}

/-- Whatever happens, the blanks of classes are those that their classes say. -/
theorem Moves.modelled (hw : w.Settled) (h : w.schema.Modelled) (hm : w.Moves w') :
    w'.schema.Modelled := by
  cases hm with
  | declare hd => exact h.declare hd
  | enumerate d => exact h.addEnum d
  | openRegistry => exact h
  | request hr hd => exact modelled_descriptorFor hw h hr hd
  | map hr hm =>
    rcases Scene.mapperFor_registries hr hm with rfl | ⟨hsession, -, -⟩
    · exact h
    · have hschema : w'.schema = w.schema := congrArg Session.schema hsession
      exact hschema ▸ h
  | dropRegistry => exact h
  | deed depth hd =>
    -- no object is meant here
    have hintact : w.Intact fun _ => False := ⟨h, fun _ hmem => hmem.elim⟩
    have hkeeps := Regime.keeps_given (Regime.sealing_serves fun _ => False) ⟨hw, hintact⟩ hd depth
    exact (hkeeps.1.intact hw hintact).modelled

theorem Respects.moves (h : w.Respects n w') : w.Moves w' := by
  cases h with
  | deed depth hd => exact .deed depth hd
  | besides h => exact h.moves

/-- **A step that respects wrappers** reaches into none of the class. -/
theorem Respects.seals (hw : w.Settled) (hi : w.Intact (· = n)) (h : w.Respects n w') :
    w.Seals (· = n) w' := by
  cases h with
  | @deed d depth hd hspares hsealed =>
    rw [hsealed]
    exact (Regime.keeps_runBy (Regime.sealing_serves _) (Regime.sealed_governed n depth) ⟨hw, hi⟩ hd
      (Regime.grants_of_spares hd hspares)).1
  | besides h => exact .besides (h.moves.guards hw) h.heap fun hw => h.moves.modelled hw

/-- So the wrappers stay intact in a run. -/
theorem intact_of_respects (hw : w.Settled) (hi : w.Intact (· = n))
    (h : ReflTransGen (Respects n) w w') : w'.Settled ∧ w'.Intact (· = n) := by
  induction h with
  | refl => exact ⟨hw, hi⟩
  | tail _ hstep ih =>
    have hseals := hstep.seals ih.1 ih.2
    exact ⟨hseals.guards.settled ih.1, hseals.intact ih.1 ih.2⟩

theorem intact_empty {N : ClassId → Prop} : Intact N {} :=
  ⟨fun _ _ h => (nomatch h), fun h => (nomatch h)⟩

/-! ## What wrappers read as -/

/-- A wrapper reads as one without a value. -/
structure ReadsAbsent (w : World) (type : String) (x : ObjectId) : Prop where
  absence : ∀ depth, getProperty (depth + 1) x Nullable.absenceName w = (.ok (.ofBool true), w)
  value : ∀ depth, getProperty (depth + 1) x valueName w = (.error (.fault (.nullValue type)), w)

/-- A wrapper reads as one with a value of its kind. -/
structure ReadsPresent (w : World) (κ : Kind) (x : ObjectId) : Prop where
  absence : ∀ depth, getProperty (depth + 1) x Nullable.absenceName w = (.ok (.ofBool false), w)
  value : ∃ u, (∀ depth, getProperty (depth + 1) x valueName w = (.ok u, w)) ∧
    w.schema.cast w.heap u (.scalar κ) = .ok u

section
variable (hn : w.schema.class? n = some (Nullable.decl type κ settable))
include hn

/-- An instance that is intact holds one of two things. -/
theorem Intact.fields_cases (hi : w.Intact (· = n)) (hw : w.Settled) (hx : w.classOf x = .cls n) :
    w.heap.object? x = some ⟨n, true, [κ.zero, .ofBool false]⟩ ∨
    ∃ u, w.heap.object? x = some ⟨n, true, [u, .ofBool true]⟩ ∧
      w.schema.cast w.heap u (.scalar κ) = .ok u := by
  obtain ⟨a, b, hfields⟩ := hw.formed.fields_of_classOf hn hx
  generalize he : [a, b] = fields at hfields
  cases hi.fills hfields rfl hn with
  | absent => exact .inl hfields
  | @present u hu => exact .inr ⟨u, hfields, hu _ _⟩

theorem readsAbsent_of_fields (hx : w.heap.object? x = some ⟨n, true, [κ.zero, .ofBool false]⟩) :
    w.ReadsAbsent type x where
  absence depth := getProperty_absence hn depth hx
  value depth := by
    have hg : w.schema.getterFor (w.classOf x) valueName = .ok (.wrapped type) := by
      rw [classOf_eq hx]
      exact Schema.getterFor_nullable hn
    rw [getProperty_run hg, Getter.run, bind_of_ok (isPresent_run hx)]
    rfl

theorem readsPresent_of_fields {u : Value} (hx : w.heap.object? x = some ⟨n, true, [u, .ofBool true]⟩)
    (hu : w.schema.cast w.heap u (.scalar κ) = .ok u) : w.ReadsPresent κ x where
  absence depth := getProperty_absence hn depth hx
  value := ⟨u, fun _ => getProperty_value hn hx rfl, hu⟩

end

/-- Wrappers that hold what a blank one holds are equal. -/
theorem same_of_blank (hx : w.heap.object? x = some ⟨n, true, [κ.zero, .ofBool false]⟩)
    (hy : w.heap.object? y = some ⟨n, true, [κ.zero, .ofBool false]⟩) :
    w.heap.same (.object x) (.object y) = true := by
  have hfields : ∀ same, Heap.sameAll same [κ.zero, .ofBool false] [κ.zero, .ofBool false] = true := by
    intro same
    cases κ with
    | integer i => cases i <;> rfl
    | _ => rfl
  obtain ⟨m, hm⟩ := Nat.exists_eq_succ_of_ne_zero (Nat.ne_zero_of_lt (Heap.lt_of_object? hx))
  rw [Heap.same, Heap.sameValue, hm, Heap.sameObject, hx, hy]
  simp only [hfields, beq_self_eq_true, Bool.and_true, Bool.or_true]

/-! ## The static without a value -/

section
variable (hn : w.schema.class? n = some (Nullable.decl type κ settable))
include hn

/-- Reading the static runs no body, whatever the calls are. -/
theorem getStatic_sentinel_calls (c c' : Calls) :
    c.getStatic (.cls n) Nullable.sentinelName w = c'.getStatic (.cls n) Nullable.sentinelName w := by
  rw [Calls.getStatic, Calls.getStatic, get_bind, get_bind, static_sentinel hn]
  rfl

/-- The static gives a new wrapper without a value. No object that is there changes. -/
theorem getStatic_fresh (hw : w.Settled) (hi : w.Intact (· = n)) (depth : Nat) : ∃ y w₁,
    getStatic depth (.cls n) Nullable.sentinelName w = (.ok (.object y), w₁) ∧
      w.heap.objects.size ≤ y ∧ (∀ {o i}, w.heap.object? o = some i → w₁.heap.object? o = some i) ∧
      w₁.heap.object? y = some ⟨n, true, [κ.zero, .ofBool false]⟩ ∧ w.Seals (· = n) w₁ := by
  obtain ⟨y, w₁, hget, hprepares⟩ := getStatic_sentinel hn hw depth
  -- what is given is a copy of what the static keeps
  obtain ⟨w', v, hguards, hl, hassign⟩ := exists_of_getStatic hw (static_sentinel hn) hget
  have hw' := hguards.settled hw
  have hn' := hguards.schema.classes hn
  obtain ⟨before, after, he, -⟩ := List.lookup_eq_some_iff.mp hl
  obtain ⟨x, rfl, hx⟩ :=
    hw'.secluded.blank hn' (he ▸ List.mem_append_right before List.mem_cons_self)
  obtain ⟨y', w₁', hassign', -, -, hy⟩ := assign_wrapper hw'.tidy.heap hx κ.isLiteral_zero rfl
  obtain ⟨he, rfl⟩ := Run.end_inj.mp (hassign'.symm.trans hassign)
  obtain rfl := Value.object.inj (Except.ok.inj he)
  have hseals : w.Seals (· = n) w₁' := by
    have hkeeps := (Regime.keeps_getStatic (Regime.sealing_serves _) (Regime.sealed_governed n depth)
      ⟨hw, hi⟩ (.cls n) Nullable.sentinelName).1
    rwa [getStatic_sentinel_calls hn _ (Calls.nested depth), ← Run.getStatic_eq, hget] at hkeeps
  refine ⟨y', w₁', hget, ?_, hprepares.old, hy, hseals⟩
  have hknown : (Value.object x).Known w'.heap := Heap.lt_of_object? hx
  have hyields := (Heap.assign_spec hw'.tidy.heap hknown).1
  rw [assign_run] at hassign'
  obtain ⟨hvalue, rfl⟩ := Run.end_inj.mp hassign'
  have hvalue := Except.ok.inj hvalue
  rw [hvalue] at hyields
  refine Nat.le_trans hguards.loosens.grows.size_le (hyields.new y' (List.mem_singleton.mpr rfl) ?_)
  exact Heap.isByValue_object.mpr ⟨_, hy, rfl⟩

end

/-- **Wrappers without a value are all alike**, in every run that respects the wrappers of a kind. Their
static gives a new one each time, and every other one is equal to it and faults when its value is read.
An instance that is not without a value reads as a value of the kind. -/
theorem absent_wrappers_alike (h : ReflTransGen (Respects n) {} w)
    (hn : w.schema.class? n = some (Nullable.decl type κ settable)) :
    (∀ depth, ∃ y w₁,
      getStatic depth (.cls n) Nullable.sentinelName w = (.ok (.object y), w₁) ∧
      w.heap.objects.size ≤ y ∧ (∀ {o i}, w.heap.object? o = some i → w₁.heap.object? o = some i) ∧
      w₁.classOf y = .cls n ∧ w₁.ReadsAbsent type y ∧
      ∀ {x depth}, w₁.classOf x = .cls n →
        getProperty (depth + 1) x Nullable.absenceName w₁ = (.ok (.ofBool true), w₁) →
          w₁.heap.same (.object x) (.object y) = true) ∧
    ∀ {x}, w.classOf x = .cls n → w.ReadsAbsent type x ∨ w.ReadsPresent κ x := by
  obtain ⟨hw, hi⟩ := intact_of_respects settled_empty intact_empty h
  refine ⟨fun depth => ?_, fun {x} hx => ?_⟩
  · obtain ⟨y, w₁, hget, hnew, hold, hy, hseals⟩ := getStatic_fresh hn hw hi depth
    have hn₁ := hseals.guards.schema.classes hn
    refine ⟨y, w₁, hget, hnew, hold, classOf_eq hy, readsAbsent_of_fields hn₁ hy,
      fun {x depth} hx habsent => ?_⟩
    rcases (hseals.intact hw hi).fields_cases hn₁ (hseals.guards.settled hw) hx with
      hfields | ⟨u, hfields, hu⟩
    · exact same_of_blank hfields hy
    · -- it would not read as absent
      have hpresent := (readsPresent_of_fields hn₁ hfields hu).absence depth
      cases habsent.symm.trans hpresent
  · rcases hi.fields_cases hn hw hx with hfields | ⟨u, hfields, hu⟩
    · exact .inl (readsAbsent_of_fields hn hfields)
    · exact .inr (readsPresent_of_fields hn hfields hu)

theorem Arranges.respects (h : ReflTransGen Arranges w w') : ReflTransGen (Respects n) w w' :=
  ReflTransGen.mono (fun _ _ => .besides) _ _ h

end World

namespace Scene

/-- Drafts of a nullable number and a nullable text, of a class with a public text, and of an abstract class
with a text that is kept in that. -/
def gaugeDrafts : List ClassDraft :=
  [Nullable.draft "Gauge.Level" (.integer .i32) true,
   Nullable.draft "Gauge.Name" .text true,
   { name := "Gauge.Label"
     members := [.field "Text" (.scalar .text) true, .defaultConstructor] },
   { name := "Gauge.Dial", isAbstract := true
     members := [.property { World.forestProperty (.scalar .text) with
         name := "Title", attributes := [.mapType (.cls 2)] }, .defaultConstructor] }]

/-- A level. -/
def gaugeLevel : Value := .scalar (.integer (.ofInt32 7))

/-- The world in which `Gauge.Dial` has been implemented. -/
def gaugeAsked : World := asked gaugeDrafts (.cls 3)

/-- The world with a level that has a value, one that has none, and a dial. -/
def gauge : World :=
  let w := ((Deed.construct (.cls 0) 0 [gaugeLevel]).run 8 gaugeAsked).2
  ((Deed.construct (.cls 4) 0 []).run 8 ((Deed.construct (.cls 0) 1 []).run 8 w).2).2

/-- The world in which the static without a value has been read. -/
def gaugeRead : World := (Run.getStatic 8 (.cls 0) Nullable.sentinelName gauge).2

theorem gauge_level :
    gauge.schema.class? 0 = some (Nullable.decl "Gauge.Level" (.integer .i32) true) := rfl

theorem gauge_canDeclare : CanDeclare {} gaugeDrafts := by decide +kernel

theorem gauge_respects : ReflTransGen (World.Respects 0) {} gauge := by
  have hasked : ReflTransGen World.Arranges {} gaugeAsked :=
    asked_arranges gauge_canDeclare (by decide) (by decide) (by decide +kernel) (.cls 3)
  have hconstruct : ∀ {w : World} {t : Ty} {k : Nat} {args : List Value},
      (∀ v ∈ args, v.isLiteral = true) →
      ((Deed.construct t k args).runBy (.sealed 0 8) w).1.isOk = true →
        w.Respects 0 ((Deed.construct t k args).run 8 w).2 := fun hargs hok =>
    .deed 8 (fun v hv => .of_isLiteral (hargs v hv)) trivial (Deed.run_of_sealed hok)
  refine (((World.Arranges.respects hasked).tail (hconstruct ?_ (by decide +kernel))).tail
    (hconstruct ?_ (by decide +kernel))).tail (hconstruct ?_ (by decide +kernel))
  · intro v hv
    obtain rfl := List.mem_singleton.mp hv
    rfl
  · exact fun _ hv => nomatch hv
  · exact fun _ hv => nomatch hv

/-- The level that has none is equal to what the static gives, and the other one has its value. -/
theorem absent_wrappers_alike_gauge : ∃ y w,
    Run.getStatic 8 (.cls 0) Nullable.sentinelName gauge = (.ok (.object y), w) ∧
      w.ReadsAbsent "Gauge.Level" y ∧ w.heap.same (.object 1) (.object y) = true ∧
      gauge.ReadsPresent (.integer .i32) 0 := by
  have hread : Run.getStatic 8 (.cls 0) Nullable.sentinelName gauge = (.ok (.object 5), gaugeRead) := rfl
  obtain ⟨hstatic, hreads⟩ := World.absent_wrappers_alike gauge_respects gauge_level
  obtain ⟨y, w, hget, -, -, -, habsent, hsame⟩ := hstatic 8
  obtain ⟨he, rfl⟩ := Run.end_inj.mp (hread.symm.trans hget)
  obtain rfl := Value.object.inj (Except.ok.inj he)
  have hone : Run.getProperty 1 1 Nullable.absenceName gaugeRead = (.ok (.ofBool true), gaugeRead) := rfl
  refine ⟨5, gaugeRead, hread, habsent, hsame (by decide +kernel) hone, ?_⟩
  refine (hreads (x := 0) (by decide +kernel)).resolve_left fun h => ?_
  cases h.absence 0

/-- A text that is written into levels without a value. -/
def gaugeText : Value := .scalar (.text "seven")

/-- The world in which the constructor of a nullable text has been run on such a level. -/
def gaugeChained : World := ((Deed.chain (.cls 1) 0 1 [gaugeText]).run 8 gauge).2

/-- The world in which such a level has been stored where the dial keeps its title. -/
def gaugeStored : World := ((Deed.setField 2 0 (.object 1)).run 8 gauge).2

/-- The world in which the title of that dial has been written. -/
def gaugeTitled : World := ((Deed.setProperty 2 "Title" gaugeText).run 8 gaugeStored).2

/-- The level that the constructor has been run on has a value, which is no number. The level that has been
stored for the title has no value, but it is not equal to what the static gives. -/
theorem gauge_gives_way : gauge.Reached ∧
    (gauge.classOf 1 = .cls 0 ∧ (Deed.chain (.cls 1) 0 1 [gaugeText]).Fits gauge ∧
      (Deed.chain (.cls 1) 0 1 [gaugeText]).run 8 gauge = (.ok (), gaugeChained) ∧
      Run.getProperty 8 1 Nullable.absenceName gaugeChained = (.ok (.ofBool false), gaugeChained) ∧
      Run.getProperty 8 1 valueName gaugeChained = (.ok gaugeText, gaugeChained) ∧
      gaugeChained.schema.cast gaugeChained.heap gaugeText (.scalar (.integer .i32)) ≠ .ok gaugeText) ∧
    (gauge.classOf 2 ≠ .cls 0 ∧ (Deed.setField 2 0 (.object 1)).Fits gauge ∧
      (Deed.setField 2 0 (.object 1)).run 8 gauge = (.ok (), gaugeStored) ∧
      (Deed.setProperty 2 "Title" gaugeText).Fits gaugeStored ∧
      (Deed.setProperty 2 "Title" gaugeText).run 8 gaugeStored = (.ok (), gaugeTitled) ∧
      gaugeTitled.classOf 4 = .cls 0 ∧
      Run.getProperty 8 4 Nullable.absenceName gaugeTitled = (.ok (.ofBool true), gaugeTitled) ∧
      ∃ y w, Run.getStatic 8 (.cls 0) Nullable.sentinelName gaugeTitled = (.ok (.object y), w) ∧
        w.heap.same (.object 4) (.object y) = false) := by
  have hknown : ∀ {w : World} {x : ObjectId}, w.statics = [] → x < w.heap.objects.size →
      w.Handed (.object x) := fun hs hx => .of_no_statics hs hx
  refine ⟨?_, ⟨by decide +kernel, fun v hv => ?_, rfl, rfl, rfl, by decide +kernel⟩, by decide +kernel,
    fun v hv => ?_, rfl, fun v hv => ?_, rfl, by decide +kernel, rfl, _, _, rfl, by decide +kernel⟩
  · exact ReflTransGen.mono (fun _ _ => World.Respects.moves) _ _ gauge_respects
  · rcases List.mem_pair.mp hv with rfl | rfl
    · exact hknown rfl (by decide +kernel)
    · exact .of_isLiteral rfl
  · rcases List.mem_pair.mp hv with rfl | rfl
    · exact hknown rfl (by decide +kernel)
    · exact hknown rfl (by decide +kernel)
  · rcases List.mem_pair.mp hv with rfl | rfl
    · exact hknown rfl (by decide +kernel)
    · exact .of_isLiteral rfl

end Scene

end RecordForge
