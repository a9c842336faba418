import RecordForge.Proofs.Access.Hiding

/-!
# Statics from the first read on

A static runs its initializer at each read until that succeeds; what it gives then is the value of the
static for good, and each read gives what would be stored for it (`World.static_reads`). So a value that is
not held by value is read as the same one each time. Of an object that is held by value each read makes a
copy, which is no part of it, so nothing that is done to copies reaches the static.

The initializer itself gives its result away as it is: if that is an object that is known elsewhere, it is
the static's from then on without a copy, and whoever changes it changes what is read
(`Scene.label_changes`). Reads agree as long as that is not done: as long as what is stored is stored
elsewhere, and as long as nobody is given the object, if nothing else mentions it.
-/

namespace RecordForge

open Relation (ReflTransGen)
open Run

namespace World

variable {w w' w₁ w₂ : World} {t : Ty} {name : String} {d : StaticDecl} {v u : Value} {depth : Nat}

/-! ## Initializers -/

/-- If the initializer fails, so does the read, and the next read runs the initializer again. -/
theorem getStatic_of_error {e : Halt} (hd : w.schema.static? t name = some d)
    (hl : w.statics.lookup (t, name) = none) (hc : computeStatic depth t d.body w = (.error e, w')) :
    getStatic depth t name w = (.error e, w') ∧ w'.statics.lookup (t, name) = none := by
  have hstatics := computeStatic_statics depth t d.body w
  rw [hc] at hstatics
  exact ⟨by rw [getStatic_new hd hl, bind_of_error hc], hstatics ▸ hl⟩

/-- If it succeeds, its result is kept, and a read gives what would be stored for it. -/
theorem getStatic_of_ok (hd : w.schema.static? t name = some d)
    (hl : w.statics.lookup (t, name) = none) (hc : computeStatic depth t d.body w = (.ok v, w')) :
    getStatic depth t name w = assign v (w'.keep t name v) := by
  rw [getStatic_new hd hl, bind_of_ok hc]
  rfl

/-- What an initializer gives may be kept. -/
theorem guards_of_compute (hw : w.Settled) (hd : w.schema.static? t name = some d)
    (hc : computeStatic depth t d.body w = (.ok v, w')) : w.Guards (w'.keep t name v) := by
  cases hb : d.body with
  | routine body =>
    have hkeeps := Regime.keeps_initializer (Regime.guarded.nested_lawful depth) hw hd hb
    rw [hb] at hc
    rw [Regime.Keeps, show (Calls.nested depth).computeStatic t (.routine body) w = _ from hc] at hkeeps
    obtain ⟨hguards, hhanded⟩ := hkeeps
    have hd' := Schema.static?_mono hguards.schema hd
    exact hguards.trans (.keep_routine (hguards.settled hw) hd' hb (hhanded v rfl).known)
  | blank =>
    rw [hb, computeStatic, get_bind] at hc
    cases hn : w.newObject t with
    | none =>
      rw [hn] at hc
      cases hc
      exact .keep_null hw hd hn
    | some ow =>
      rw [hn] at hc
      cases hc
      exact .keep_blank hw hd hn

/-- A read gives what would be stored for the value of the static, which the static has by then. -/
theorem exists_of_getStatic (hw : w.Settled) (hd : w.schema.static? t name = some d)
    (hg : getStatic depth t name w = (.ok u, w₁)) :
    ∃ w' v, w.Guards w' ∧ w'.statics.lookup (t, name) = some v ∧ assign v w' = (.ok u, w₁) := by
  cases hl : w.statics.lookup (t, name) with
  | some v => exact ⟨w, v, .refl w, hl, (getStatic_kept hd hl).symm.trans hg⟩
  | none =>
    cases hc : computeStatic depth t d.body w with
    | mk r w' =>
      cases r with
      | error e => cases (getStatic_of_error hd hl hc).1.symm.trans hg
      | ok v =>
        exact ⟨w'.keep t name v, v, guards_of_compute hw hd hc, List.lookup_cons_self,
          (getStatic_of_ok hd hl hc).symm.trans hg⟩

/-! ## Reads -/

theorem assign_run (v : Value) (w : World) :
    assign v w = (.ok (w.heap.assign v).1, { w with heap := (w.heap.assign v).2 }) := rfl

/-- A read of a static that has its value runs nothing. It gives a value with the contents of that one:
the same, unless it is held by value. -/
theorem getStatic_of_lookup (hw : w.Settled) (hd : w.schema.static? t name = some d)
    (hl : w.statics.lookup (t, name) = some v) (depth : Nat) :
    ∃ u heap, getStatic depth t name w = (.ok u, { w with heap }) ∧ w.heap.Yields heap [u] ∧
      w.heap.Alike heap v u ∧ (w.heap.isByValue v = false → u = v) := by
  obtain ⟨hyields, halike⟩ := Heap.assign_spec hw.tidy.heap (hw.known_static hl)
  refine ⟨_, _, (getStatic_kept hd hl).trans (assign_run v w), hyields, halike, fun hb => ?_⟩
  rw [Heap.assign_of_not_isByValue hb]

/-- What a read has given is no part of what the static keeps, then or later. -/
theorem outside_of_read {heap : Heap} {y : ObjectId} (hy : w.heap.Yields heap [.object y])
    (hv : v.Known w.heap) (hl : heap.Loosens w₂.heap) : w₂.heap.Outside v y := by
  have hmem : Value.object y ∈ [Value.object y] := List.mem_singleton.mpr rfl
  have hknown : y < heap.objects.size := hy.known _ hmem
  have hbyValue := hl.grows.isByValue_eq (v := .object y) hknown
  cases hb : heap.isByValue (.object y) with
  | false => exact Heap.outside_of_shared (hbyValue.trans hb)
  | true =>
    rintro x rfl - hp
    rcases ReflTransGen.cases_tail hp with rfl | ⟨a, -, k, hf, -⟩
    · -- it is newer than the value of the static
      have hlt : y < w.heap.objects.size := hv
      exact absurd hlt (Nat.not_lt_of_le (hy.new y hmem hb))
    · -- and no field has taken it in
      exact hl.loose (hy.loose y hmem hb) hknown hb a k hf

/-! ## Objects that a static has for itself -/

/-- Something is stored, but not into a part of a value. -/
inductive Beside (v : Value) : World → World → Prop
  | deed {w : World} {d : Deed} {y : ObjectId} {P : Nat → Prop} (depth : Nat) (hd : d.Fits w)
      (hput : d.Puts w y P) (hout : w.heap.Outside v y) : Beside v w (d.run depth w).2

theorem retains_of_beside (hw : w.Settled) (h : ReflTransGen (Beside v) w w') :
    w'.Settled ∧ w.heap.Retains w'.heap v := by
  induction h with
  | refl => exact ⟨hw, .refl w.heap v⟩
  | tail _ hstep ih =>
    obtain ⟨hsettled, hretains⟩ := ih
    cases hstep with
    | deed depth hd hput hout =>
      have hguards := (Regime.keeps_deed hsettled hd depth).1
      have hlast := (hput.overwrites hsettled hd depth).retains hout
      exact ⟨hguards.settled hsettled, hretains.trans hlast⟩

/-- A new object that no field holds is mentioned by nothing. -/
theorem hides_of_new (hw : w.Settled) (hg : w.Guards w₁) (hschema : w₁.schema = w.schema)
    (hregistries : w₁.registries = w.registries) (hcarriers : w₁.heap.carriers = w.heap.carriers)
    (hnew : ∀ x, v = .object x → w₁.heap.isByValue v = true →
      w.heap.objects.size ≤ x ∧ w₁.heap.Loose x) : w₁.Hides (w₁.heap.Inside v) := by
  have htidy := (hg.settled hw).tidy.heap
  -- what could be come by before was there before, and the parts of the object come after it
  have hclear : ∀ u, w.Handed u → w₁.Clear (w₁.heap.Inside v) u := by
    intro u hu
    refine ⟨hg.handed hu, ?_⟩
    rintro y rfl ⟨x, he, hb, hp⟩
    have hlt : y < w.heap.objects.size := hu.known
    have hle : w.heap.objects.size ≤ y := Nat.le_trans (hnew x he hb).1 (htidy.le_of_hasPart hp)
    exact absurd hlt (Nat.not_lt_of_le hle)
  constructor
  · exact fun hy => hy.isByValue
  · exact fun hy hf hb => hy.field hf hb
  · intro a y k hy hf
    have hby := hy.isByValue
    obtain ⟨x, he, hb, hp⟩ := hy
    rcases htidy.hasPart_holder hp hf hby with rfl | ha
    · exact ((hnew _ he hb).2 a k hf).elim
    · exact ⟨x, he, hb, ha⟩
  · intro c vs hp u hu
    rw [Heap.parameters?, hcarriers] at hp
    exact hclear u (hw.secluded.parameters hp u hu)
  · rw [hschema]
    exact hw.secluded.literals.imp hclear
  · intro r registry hr
    rw [hregistries] at hr
    rw [hschema]
    exact (hw.secluded.given hr).imp hclear

/-- A static that has been made blank has its value for itself. -/
theorem hides_of_blank (hw : w.Settled) (hd : w.schema.static? t name = some d)
    (hb : d.body = .blank) (hl : w.statics.lookup (t, name) = none)
    (hg : getStatic depth t name w = (.ok u, w₁)) (hv : w₁.statics.lookup (t, name) = some v) :
    w₁.Hides (w₁.heap.Inside v) := by
  have hguards : w.Guards w₁ := by
    have hkeeps := (Regime.keeps_getStatic Regime.guarded_serves
      (Regime.nested_governed .guarded depth) hw t name).1
    rwa [← Run.getStatic_eq, hg] at hkeeps
  cases hn : w.newObject t with
  | none =>
    have hc : computeStatic depth t d.body w = (.ok .null, w) := by
      rw [hb, computeStatic, get_bind, hn]
      rfl
    have hread := (getStatic_of_ok hd hl hc).symm.trans hg
    cases hread
    rw [World.keep, List.lookup_cons_self] at hv
    obtain rfl := Option.some.inj hv
    exact hides_of_new hw hguards rfl rfl rfl fun x he => by cases he
  | some ow =>
    obtain ⟨o, w'⟩ := ow
    obtain ⟨heap, rfl, hyields, -⟩ := newObject_yields hw hn
    have hc : computeStatic depth t d.body w = (.ok (.object o), { w with heap }) := by
      rw [hb, computeStatic, get_bind, hn]
      rfl
    have hmem : Value.object o ∈ [Value.object o] := List.mem_singleton.mpr rfl
    have hread := (getStatic_of_ok hd hl hc).symm.trans hg
    have hassign := (Heap.assign_spec hyields.tidy (hyields.known _ hmem)).1
    cases hread
    rw [World.keep, List.lookup_cons_self] at hv
    obtain rfl := Option.some.inj hv
    refine hides_of_new hw hguards rfl rfl (hassign.carriers.trans hyields.carriers) fun x he hbx => ?_
    obtain rfl := Value.object.inj he
    have hbo : heap.isByValue (.object o) = true := by
      rwa [← hassign.grows.isByValue_eq (hyields.known _ hmem)]
    exact ⟨hyields.new o hmem hbo,
      (Heap.Loosens.of_yields hassign).loose (hyields.loose o hmem hbo) (hyields.known _ hmem) hbo⟩

/-- **Statics from the first read on.** A read of a static that has no value runs the initializer. If that
fails, the read fails in the same way, and the static still has no value. If it succeeds, the static has
its result for good, and each read, also the first one, runs nothing more and gives what has the contents
of that value: the same if it is not held by value, and else a new object that is no part of it then or
later. It is alike at each read while no part of the value is changed. That is so while what is stored is
stored elsewhere, and, if nothing else mentions any part of the value, whatever is done without being given
one; a static that is made blank has a value that nothing else mentions. -/
theorem static_reads (hw : w.Reached) {t : Ty} {name : String} {d : StaticDecl}
    (hd : w.schema.static? t name = some d) :
    (w.statics.lookup (t, name) = none → ∀ {depth r w'}, computeStatic depth t d.body w = (r, w') →
      (∀ e, r = .error e →
        getStatic depth t name w = (.error e, w') ∧ w'.statics.lookup (t, name) = none) ∧
      ∀ v, r = .ok v → ∃ u w₁, getStatic depth t name w = (.ok u, w₁) ∧
        w₁.statics.lookup (t, name) = some v) ∧
    ∀ {depth u w₁}, getStatic depth t name w = (.ok u, w₁) → ∃ v,
      w₁.statics.lookup (t, name) = some v ∧ w₁.heap.Alike w₁.heap v u ∧
      (∀ {w₂}, w₁.Later w₂ → w₂.statics.lookup (t, name) = some v ∧
        (∀ y, u = .object y → w₂.heap.Outside v y) ∧
        ∀ depth, ∃ u' heap, getStatic depth t name w₂ = (.ok u', { w₂ with heap }) ∧
          w₂.heap.Yields heap [u'] ∧ (w₁.heap.isByValue v = false → u' = u) ∧
          (w₁.heap.Retains w₂.heap v → w₁.heap.Alike heap u u')) ∧
      (∀ {w₂ w₃}, w₁.Later w₂ → ReflTransGen (Beside v) w₂ w₃ → w₂.heap.Retains w₃.heap v) ∧
      (w₁.Hides (w₁.heap.Inside v) → ∀ {w₂}, ReflTransGen (Bypasses (w₁.heap.Inside v)) w₁ w₂ →
        w₁.heap.Retains w₂.heap v) ∧
      (w.statics.lookup (t, name) = none → d.body = .blank → w₁.Hides (w₁.heap.Inside v)) := by
  have hsettled := hw.settled
  refine ⟨fun hl {depth r w'} hc => ⟨?_, ?_⟩, fun {depth u w₁} hg => ?_⟩
  · rintro e rfl
    exact getStatic_of_error hd hl hc
  · rintro v rfl
    refine ⟨_, _, getStatic_of_ok hd hl hc, ?_⟩
    exact List.lookup_cons_self
  · obtain ⟨w', v, hguards, hl, hassign⟩ := exists_of_getStatic hsettled hd hg
    have hsettled' := hguards.settled hsettled
    have hv := hsettled'.known_static hl
    obtain ⟨hyields, halike⟩ := Heap.assign_spec hsettled'.tidy.heap hv
    have hbrings := Heap.assign_brings hsettled'.tidy.heap hsettled'.formed.heap hv
    rw [assign_run] at hassign
    obtain ⟨hu, rfl⟩ := Run.end_inj.mp hassign
    obtain rfl := Except.ok.inj hu
    have hguards₁ := World.Guards.of_yields hsettled' hyields hbrings
    have hsettled₁ := hguards₁.settled hsettled'
    have hknown := hv.mono hyields.grows
    have hbyValue := hyields.grows.isByValue_eq hv
    -- after the read the value is as it was, and what the read has given is alike
    have hfirst := (hyields.alike hsettled'.tidy.heap hv).symm.trans halike
    refine ⟨v, hl, hfirst, fun {w₂} hlater => ?_, fun {w₂ w₃} hlater hbeside => ?_,
      fun hhides {w₂} h => ?_, fun hnone hblank => ?_⟩
    · have hguards₂ := Later.guards hsettled₁ hlater
      have hsettled₂ := hguards₂.settled hsettled₁
      have hl₂ := hlater.statics hsettled₁ hl
      have hd₂ := Schema.static?_mono ((hguards.trans hguards₁).schema.trans hguards₂.schema) hd
      refine ⟨hl₂, fun y he => ?_, fun depth => ?_⟩
      · rw [he] at hyields
        exact outside_of_read hyields hv hguards₂.loosens
      · obtain ⟨u', heap, hread, hyields₂, halike₂, hsame⟩ := getStatic_of_lookup hsettled₂ hd₂ hl₂ depth
        refine ⟨u', heap, hread, hyields₂, fun hb => ?_, fun hretains => ?_⟩
        · have hb₂ := (hguards₂.loosens.grows.isByValue_eq hknown).trans hb
          rw [hsame hb₂, Heap.assign_of_not_isByValue (hbyValue.symm.trans hb)]
        · have hkept := hretains.alike hsettled₁.tidy.heap hguards₂.loosens.grows hknown
          exact hfirst.symm.trans (hkept.trans halike₂)
    · have hsettled₂ := (Later.guards hsettled₁ hlater).settled hsettled₁
      exact (retains_of_beside hsettled₂ hbeside).2
    · exact fun y i hy hi => (shuns_of_bypasses hsettled₁ hhides h).same hy hi
    · exact hides_of_blank hsettled hd hblank hnone hg hl

end World

namespace Scene

/-- Draft of a class with a static whose initializer gives the size that is there. -/
def labelDraft : ClassDraft :=
  { name := "Parcel.Label"
    members := [.static ⟨"Size", .cls 0, .routine [.give (.value (.object 0))]⟩] }

/-- The world with a size and a box, and with a label. -/
def label : World := { parcel with schema := (parcel.schema.addClass (parcel.schema.finish labelDraft)).2 }

theorem label_static : label.schema.static? (.cls 2) "Size" =
    some ⟨"Size", .cls 0, .routine [.give (.value (.object 0))]⟩ := rfl

theorem label_reached : label.Reached := by
  have hsize : 0 < parcel.heap.objects.size := by decide +kernel
  have hhanded : parcel.Handed (.object 0) := .of_no_statics rfl hsize
  have hvalues : (parcel.schema.finish labelDraft).All parcel.Handed := by
    refine ⟨fun _ h => (nomatch h), fun _ h => (nomatch h), fun _ h => (nomatch h),
      fun _ h => (nomatch h), fun f hf => ?_⟩
    obtain rfl := List.mem_singleton.mp hf
    intro a ha
    obtain rfl := List.mem_singleton.mp ha
    exact hhanded
  have hwritten : labelDraft.IsWritten := by
    intro c hc
    cases List.mem_singleton.mp hc
  have hd : parcel.schema.declare labelDraft = .ok (2, label.schema) :=
    Schema.declare_eq_ok_iff.mpr ⟨rfl, rfl⟩
  exact parcel_reached.tail (.declare hd hwritten (by decide +kernel) hvalues fun _ _ hr => (nomatch hr))

/-- The label's size has been read for the first time. -/
def labelRead : World := (Run.getStatic 4 (.cls 2) "Size" label).2

theorem getStatic_label : Run.getStatic 4 (.cls 2) "Size" label = (.ok (.object 3), labelRead) := rfl

/-- Everything that is there can be come by. -/
theorem labelRead_handed {v : Value} (hv : v.Known labelRead.heap) : labelRead.Handed v := by
  refine ⟨hv, fun _ hk => ?_⟩
  obtain ⟨-, t, name, d, hd, hblank, hmem⟩ := hk
  obtain ⟨hkey, -⟩ := Prod.mk.inj (List.mem_singleton.mp hmem)
  obtain ⟨rfl, rfl⟩ := Prod.mk.inj hkey
  obtain rfl := Option.some.inj (label_static.symm.trans hd)
  cases hblank

/-- The world after a height has been stored into a size. -/
def labelChanged (o : ObjectId) : World := (Run.setField o 0 parcelHeight labelRead).2

theorem setField_fits {o : ObjectId} (ho : o < labelRead.heap.objects.size) :
    (Deed.setField o 0 parcelHeight).Fits labelRead := by
  intro v hv
  rcases List.mem_pair.mp hv with rfl | rfl
  · exact labelRead_handed ho
  · exact .of_isLiteral rfl

/-- What the first read has given is changed, and the next read gives what the first one gave then. -/
theorem static_reads_label :
    Run.getStatic 4 (.cls 2) "Size" label = (.ok (.object 3), labelRead) ∧
      (labelChanged 3).heap.field? 3 0 = some parcelHeight ∧
      ∃ u heap, Run.getStatic 4 (.cls 2) "Size" (labelChanged 3) =
          (.ok u, { labelChanged 3 with heap }) ∧
        labelRead.heap.Alike heap (.object 3) u := by
  obtain ⟨-, hread⟩ := World.static_reads label_reached label_static
  obtain ⟨v, -, -, hlater, hbeside, -⟩ := hread getStatic_label
  have hfits : (Deed.setField 3 0 parcelHeight).Fits labelRead := setField_fits (by decide +kernel)
  -- what was given is no part of the label's size
  have hout : labelRead.heap.Outside v 3 := (hlater .refl).2.1 3 rfl
  have hretains : labelRead.heap.Retains (labelChanged 3).heap v :=
    hbeside .refl (.single (.deed 4 hfits (.field 3 0 parcelHeight) hout))
  obtain ⟨-, -, hreads⟩ := hlater (.single (.deed (w := labelRead) 4 hfits))
  obtain ⟨u, heap, hu, -, -, halike⟩ := hreads 4
  exact ⟨getStatic_label, by decide +kernel, u, heap, hu, halike hretains⟩

/-- The size that the initializer has given is changed, and the next read does not give what the first one
gave then. -/
theorem label_changes : label.Reached ∧
    Run.getStatic 4 (.cls 2) "Size" label = (.ok (.object 3), labelRead) ∧
    (Deed.setField 0 0 parcelHeight).Fits labelRead ∧
    ∃ u w, Run.getStatic 4 (.cls 2) "Size" (labelChanged 0) = (.ok u, w) ∧
      ¬labelRead.heap.Alike w.heap (.object 3) u := by
  refine ⟨label_reached, getStatic_label, setField_fits (by decide +kernel), .object 4, _, rfl, ?_⟩
  intro h
  cases h with
  | copied hi hj _ _ hf =>
    cases hi
    cases hj
    cases hf (k := 0) rfl rfl

end Scene

end RecordForge
