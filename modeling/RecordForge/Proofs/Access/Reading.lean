import RecordForge.Proofs.Access.Statics

/-!
# Reading statics

A static that has no value runs its initializer when it is read, and the initializer makes calls. So a
read keeps to a regime if these calls do (`Regime.keeps_getStatic`): what it gives is admitted, whatever
the static keeps for itself. That is shown once for all regimes under which statics can be given their
values (`Regime.Serves`), and for any calls, not only those that nest to some depth.
-/

namespace RecordForge

open Run

/-! ## Initializers and the calls that they make -/

namespace Calls

variable (c : Calls)

/-- Runs the initializer of a static of a class. -/
def computeStatic (t : Ty) : StaticBody → Run Value
  | .routine body => Routine.run c { declaring := some t } body
  | .blank => Run.computeStatic 0 t .blank

/-- Reads a static of a class. Its initializer makes the calls. -/
def getStatic (t : Ty) (name : String) : Run Value := do
  let w ← get
  match w.schema.static? t name with
  | none => fail (.missingMember (w.schema.name t) name)
  | some d =>
    match w.statics.lookup (t, name) with
    | some v => assign v
    | none => do
      let v ← c.computeStatic t d.body
      modify (·.keep t name v)
      assign v

/-- Initializers give what they give with other calls, unless these are exhausted. -/
theorem computeStatic_approximates {c c' : Calls} (h : c.Approximate c') (t : Ty) (b : StaticBody) :
    Approximates (c.computeStatic t b) (c'.computeStatic t b) := by
  cases b with
  | routine body => exact body.run_approximates h
  | blank => exact .refl _

theorem getStatic_approximates {c c' : Calls} (h : c.Approximate c') (t : Ty) (name : String) :
    Approximates (c.getStatic t name) (c'.getStatic t name) := by
  refine .after fun w => ?_
  cases w.schema.static? t name with
  | none => exact .refl _
  | some d =>
    cases w.statics.lookup (t, name) with
    | some v => exact .refl _
    | none => exact (computeStatic_approximates h t d.body).before

end Calls

/-- Statics are read by calls that may nest to a depth. -/
theorem Run.getStatic_eq (depth : Nat) (t : Ty) (name : String) :
    Run.getStatic depth t name = (Calls.nested depth).getStatic t name := by
  funext w
  rw [Calls.getStatic, get_bind]
  cases hd : w.schema.static? t name with
  | none => rw [Run.getStatic, get_bind, hd]
  | some d =>
    dsimp only
    cases hl : w.statics.lookup (t, name) with
    | some v => exact getStatic_kept hd hl
    | none =>
      rw [getStatic_new hd hl]
      cases d.body <;> rfl

namespace Regime

variable {G : Regime} {c : Calls} {w : World} {t : Ty} {name : String} {d : StaticDecl} {v : Value}

/-! ## Regimes under which statics are read -/

/-- What is done from outside without calls keeps to a regime, and a static may be given its value. -/
structure Serves (G : Regime) : Prop where
  settled : ∀ {w}, G.Inv w → w.Settled
  guards : ∀ {w w'}, G.Leads w w' → w.Guards w'
  known : ∀ {w v}, G.Admits w v → v.Known w.heap
  copy : ∀ {w o}, G.Inv w → G.Admits w (.object o) → G.Keeps w (copy o) fun _ _ => True
  /-- Also what is not admitted is prepared to be stored. -/
  assign : ∀ {w v}, G.Inv w → v.Known w.heap → G.Keeps w (assign v) G.Admits
  blankValue : ∀ {w} (t : Ty), G.Inv w → G.Keeps w (blankValue t) fun _ _ => True
  keep : ∀ {w heap vs t name v}, G.Inv w → w.statics.lookup (t, name) = none →
    G.Leads w { w with heap } → w.heap.Yields heap vs →
    w.Guards (World.keep { w with heap } t name v) → G.Leads w (World.keep { w with heap } t name v)

/-- Calls keep to a regime, and read no static. -/
structure Governs (G : Regime) (c : Calls) : Prop where
  lawful : G.Lawful c
  unread : unread.Lawful c

theorem nested_governed (G : Regime) [G.IsOpen] (depth : Nat) : G.Governs (Calls.nested depth) :=
  ⟨G.nested_lawful depth, unread.nested_lawful depth⟩

/-- The routine that computes a static keeps to every regime that its calls keep to. -/
theorem keeps_initializer (hc : G.Lawful c) (hw : G.Inv w) {body : Routine}
    (hd : w.schema.static? t name = some d) (hbody : d.body = .routine body) :
    G.Keeps w (c.computeStatic t (.routine body)) G.Admits := by
  obtain ⟨b, hb, hfind⟩ := Option.bind_eq_some_iff.mp hd
  have hall : Routine.All (G.Admits w) body := by
    have hstatic := (G.literals hw t b hb).statics d (List.mem_of_find?_eq_some hfind)
    rwa [hbody] at hstatic
  have hfits : G.Fits w { declaring := some t } :=
    ⟨fun _ h => (nomatch h), fun _ h => (nomatch h), fun _ h => (nomatch h)⟩
  exact keeps_routine hc hw hfits hall

section
variable (hG : G.Serves) (hc : G.Governs c) (hw : G.Inv w)
include hG hw

/-- A static has been given its value, and the read gives what would be stored for it. -/
theorem keeps_last {heap : Heap} {vs : List Value} (hl : w.statics.lookup (t, name) = none)
    (hleads : G.Leads w { w with heap }) (hy : w.heap.Yields heap vs)
    (hguards : w.Guards (World.keep { w with heap } t name v)) (hv : v.Known heap)
    {x : Run Value} (hx : x w = assign v (World.keep { w with heap } t name v)) :
    G.Keeps w x G.Admits := by
  have hkeep := hG.keep hw hl hleads hy hguards
  exact .later hx hkeep (hG.assign (G.inv hw hkeep) hv)

/-- A static that is made blank. -/
theorem keeps_blankStatic (hd : w.schema.static? t name = some d)
    (hl : w.statics.lookup (t, name) = none) :
    G.Keeps w (c.computeStatic t .blank >>= fun v => do
      modify (·.keep t name v)
      assign v) G.Admits := by
  have hsettled := hG.settled hw
  rw [Calls.computeStatic, Run.computeStatic]
  cases hn : w.newObject t with
  | none =>
    refine keeps_last hG hw hl (v := .null) (G.refl w) (.nil hsettled.tidy.heap)
      (.keep_null hsettled hd hn) trivial ?_
    rw [bind_run, get_bind, hn]
    rfl
  | some ow =>
    obtain ⟨o, w₁⟩ := ow
    have hguards : w.Guards (w₁.keep t name (.object o)) := .keep_blank hsettled hd hn
    have hleads := (G.allocate hw hn).1
    obtain ⟨heap, rfl, hyields, -⟩ := World.newObject_yields hsettled hn
    refine keeps_last hG hw hl hleads hyields hguards
      (hyields.known _ (List.mem_singleton.mpr rfl)) ?_
    rw [bind_run, get_bind, hn]
    rfl

include hc

/-- A static that is computed by a routine. -/
theorem keeps_routineStatic {body : Routine} (hd : w.schema.static? t name = some d)
    (hl : w.statics.lookup (t, name) = none) (hbody : d.body = .routine body) :
    G.Keeps w (c.computeStatic t (.routine body) >>= fun v => do
      modify (·.keep t name v)
      assign v) G.Admits := by
  have hroutine := keeps_initializer hc.lawful hw hd hbody
  -- the static has no value yet when the routine ends
  have hunread := (keeps_initializer hc.unread trivial hd hbody).1
  have hcompute : G.Keeps w (c.computeStatic t (.routine body)) fun w' u =>
      G.Admits w' u ∧ w'.statics = w.statics :=
    ⟨hroutine.1, fun u hu => ⟨hroutine.2 u hu, hunread⟩⟩
  refine hcompute.bind hw fun w₁ v hw₁ hl₁ hv => ?_
  obtain ⟨hadmits, hsame⟩ := hv
  have hsettled₁ := hG.settled hw₁
  have hknown := hG.known hadmits
  have hd₁ : w₁.schema.static? t name = some d := Schema.static?_mono (hG.guards hl₁).schema hd
  exact keeps_last hG hw₁ (hsame ▸ hl) (G.refl w₁) (.nil hsettled₁.tidy.heap)
    (.keep_routine hsettled₁ hd₁ hbody hknown) hknown rfl

/-- **Reading a static** keeps to a regime, also if the static has to be given its value first. -/
theorem keeps_getStatic (t : Ty) (name : String) : G.Keeps w (c.getStatic t name) G.Admits := by
  cases hd : w.schema.static? t name with
  | none =>
    refine .later (y := fail (.missingMember (w.schema.name t) name)) (u := w) ?_ (G.refl w) .fail
    rw [Calls.getStatic, get_bind, hd]
  | some d =>
    cases hl : w.statics.lookup (t, name) with
    | some v =>
      refine .later (y := assign v) (u := w) ?_ (G.refl w)
        (hG.assign hw ((hG.settled hw).known_static hl))
      rw [Calls.getStatic, get_bind, hd]
      dsimp only
      rw [hl]
    | none =>
      have hx : c.getStatic t name w = (c.computeStatic t d.body >>= fun v => do
          modify (·.keep t name v)
          assign v) w := by
        rw [Calls.getStatic, get_bind, hd]
        dsimp only
        rw [hl]
      refine .later hx (G.refl w) ?_
      cases hbody : d.body with
      | routine body => exact keeps_routineStatic hG hc hw hd hl hbody
      | blank => exact keeps_blankStatic hG hw hd hl

end

/-! ## What statics keep for themselves -/

theorem keeps_copy {o : ObjectId} (hw : w.Settled) (ho : w.Handed (.object o)) :
    guarded.Keeps w (copy o) fun _ _ => True := by
  have hbrings := Heap.copy_brings hw.tidy.heap hw.formed.heap ho.known
  exact ⟨.of_yields hw (Heap.copy_yields hw.tidy.heap ho.known) hbrings, fun _ _ => trivial⟩

theorem keeps_blankValue (hw : w.Settled) (t : Ty) :
    guarded.Keeps w (blankValue t) fun _ _ => True := by
  have hbrings := Heap.place_brings w.heap (hw.formed.schema.blank t)
  exact ⟨.of_yields hw (Heap.place_yields hw.tidy.heap _) hbrings, fun _ _ => trivial⟩

/-- Reading statics leaves alone what statics keep. -/
theorem guarded_serves : guarded.Serves where
  settled hw := hw
  guards h := h
  known hv := hv.known
  copy hw ho := keeps_copy hw ho
  assign hw hv := keeps_assign hw hv
  blankValue t hw := keeps_blankValue hw t
  keep _ _ _ _ hguards := hguards

end Regime

end RecordForge
