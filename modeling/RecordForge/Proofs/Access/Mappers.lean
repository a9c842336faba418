import RecordForge.Proofs.Access.Reading
import RecordForge.Proofs.Schema.Conversion

/-!
# Reading and writing through mappers

A mapper reads and writes a member in steps: the object is checked, the member is read or written, a
wrapper is opened or made, and hooks and an observer see the value (`Run.mapGet_eq`, `Run.mapSet_eq`).
Each step keeps to every regime that reading statics keeps to: a wrapper may read the static of a nullable
wrapper for a value that is absent. As with statics, the calls that the steps make may be any that keep to
the regime.
-/

namespace RecordForge

namespace Run

/-- Lets an observer see a value on its way through a mapper, if there is one. -/
def notice (m : MemberMapper) (event : Picture → Event) (v : Value) : Run Unit :=
  if m.hooks.isTraced then display event v else pure ()

/-- The value that a member of an object holds. -/
def fetchMember (depth : Nat) (m : MemberMapper) (o : ObjectId) : Run Value :=
  match m.access with
  | .field slot => getField o slot
  | .property => getProperty depth o m.member

/-- Stores a value into a member of an object. -/
def storeMember (depth : Nat) (m : MemberMapper) (o : ObjectId) (v : Value) : Run Unit :=
  match m.access with
  | .field slot => setField o slot v
  | .property => setProperty depth o m.member v

/-- A member is read in steps. -/
theorem mapGet_eq {depth : Nat} {m : MemberMapper} {o : ObjectId} {r : MemberReader}
    (hr : m.reader = some r) :
    mapGet depth m o = (requireInstance o r.declaring >>= fun _ => fetchMember depth m o >>= fun v =>
      unwrap depth r v >>= fun v => notice m .outward v >>= fun _ =>
        ask fun w => m.hooks.outward w.heap v) := by
  have hlast : ∀ v, (notice m .outward v >>= fun _ => ask fun w => m.hooks.outward w.heap v : Run Value)
      = (if m.hooks.isTraced then display .outward v >>= fun _ => ask fun w => m.hooks.outward w.heap v
        else ask fun w => m.hooks.outward w.heap v) := by
    intro v
    rw [notice]
    split <;> rfl
  simp only [mapGet, hr, hlast, fetchMember]
  cases m.access <;> rfl

theorem mapSet_eq {depth : Nat} {m : MemberMapper} {o : ObjectId} {v : Value} {writer : MemberWriter}
    (hw : m.writer = some writer) :
    mapSet depth m o v = (requireInstance o m.objectType >>= fun _ => notice m .inward v >>= fun _ =>
      ask (fun w => m.hooks.inward w.heap v) >>= fun v => wrap depth writer v >>= fun v =>
        storeMember depth m o v) := by
  simp only [mapSet, hw, storeMember]
  cases m.access <;> (rw [notice]; cases m.hooks.isTraced <;> rfl)

theorem unwrap_eq {depth : Nat} {r : MemberReader} {v : Value} :
    unwrap depth r v = ((if r.hasAbsence then isAbsent depth v else pure false) >>= fun absent =>
      if absent then pure .null
      else if r.hasValue then wrapperObject v >>= fun o => getProperty depth o valueName
      else pure v) := by
  rw [unwrap]
  cases r.hasAbsence <;> rfl

end Run

/-! ## Mappers and the calls that they make -/

namespace Calls

open Run

variable (c : Calls) (m : MemberMapper) (o : ObjectId) (v : Value)

/-- Whether the value of a member is a wrapper without a value. -/
def isAbsent : Run Bool := do
  let o ← wrapperObject v
  return (← c.read o Nullable.absenceName).bool? == some true

/-- The value of a member as a record sees it. -/
def unwrap (r : MemberReader) : Run Value :=
  (if r.hasAbsence then c.isAbsent v else pure false) >>= fun absent =>
    if absent then pure .null
    else if r.hasValue then wrapperObject v >>= fun o => c.read o valueName
    else pure v

/-- The value that a member of an object holds. -/
def fetchMember : Run Value :=
  match m.access with
  | .field slot => getField o slot
  | .property => c.read o m.member

/-- Stores a value into a member of an object. -/
def storeMember : Run Unit :=
  match m.access with
  | .field slot => setField o slot v
  | .property => c.write o m.member v

/-- Reads a member of an object through its mapper. -/
def mapGet : Run Value :=
  match m.reader with
  | none => missingDirection m "get_"
  | some r =>
    requireInstance o r.declaring >>= fun _ => c.fetchMember m o >>= fun v =>
      c.unwrap v r >>= fun v => notice m .outward v >>= fun _ => ask fun w => m.hooks.outward w.heap v

/-- The value to store in a member for a value of a record. -/
def wrap (writer : MemberWriter) : Run Value :=
  match writer with
  | .scalar k => convert v k
  | .nullable k constructor wrapper => do
    if v.isNull then c.getStatic wrapper Nullable.sentinelName
    else if ← ask (fun w => v.object?.any (w.isInstance · wrapper)) then return v
    else
      let inner ← convert v k
      return .object (← c.construct wrapper constructor [inner])

/-- Writes a member of an object through its mapper. -/
def mapSet : Run Unit :=
  match m.writer with
  | none => missingDirection m "set_"
  | some writer =>
    requireInstance o m.objectType >>= fun _ => notice m .inward v >>= fun _ =>
      ask (fun w => m.hooks.inward w.heap v) >>= fun v => c.wrap v writer >>= fun v =>
        c.storeMember m o v

section
variable {c c' : Calls} (h : c.Approximate c')
include h

theorem unwrap_approximates (v : Value) (r : MemberReader) :
    Approximates (c.unwrap v r) (c'.unwrap v r) := by
  have habsent : Approximates (if r.hasAbsence then c.isAbsent v else pure false)
      (if r.hasAbsence then c'.isAbsent v else pure false) := by
    split
    · exact .after fun o => (h.read o Nullable.absenceName).before
    · exact .refl _
  refine habsent.bind fun absent => ?_
  split
  · exact .refl _
  · split
    · exact .after fun o => h.read o valueName
    · exact .refl _

theorem mapGet_approximates (m : MemberMapper) (o : ObjectId) :
    Approximates (c.mapGet m o) (c'.mapGet m o) := by
  rw [mapGet, mapGet]
  cases m.reader with
  | none => exact .refl _
  | some r =>
    have hfetch : Approximates (c.fetchMember m o) (c'.fetchMember m o) := by
      rw [fetchMember, fetchMember]
      cases m.access with
      | field slot => exact .refl _
      | property => exact h.read o m.member
    exact .after fun _ => hfetch.bind fun v => (unwrap_approximates h v r).before

theorem wrap_approximates (v : Value) (writer : MemberWriter) :
    Approximates (c.wrap v writer) (c'.wrap v writer) := by
  cases writer with
  | scalar k => exact .refl _
  | nullable k constructor wrapper =>
    rw [wrap, wrap]
    split
    · exact getStatic_approximates h wrapper Nullable.sentinelName
    · refine .after fun isWrapper => ?_
      split
      · exact .refl _
      · exact .after fun inner => (h.construct wrapper constructor [inner]).before

theorem mapSet_approximates (m : MemberMapper) (o : ObjectId) (v : Value) :
    Approximates (c.mapSet m o v) (c'.mapSet m o v) := by
  rw [mapSet, mapSet]
  cases m.writer with
  | none => exact .refl _
  | some writer =>
    have hstore : ∀ u, Approximates (c.storeMember m o u) (c'.storeMember m o u) := fun u => by
      rw [storeMember, storeMember]
      cases m.access with
      | field slot => exact .refl _
      | property => exact h.write o m.member u
    exact .after fun _ => .after fun _ => .after fun u =>
      (wrap_approximates h u writer).bind hstore

end

end Calls

namespace Run

variable (depth : Nat) (m : MemberMapper) (o : ObjectId) (v : Value)

theorem wrap_by (writer : MemberWriter) : wrap depth writer v = (Calls.nested depth).wrap v writer := by
  cases writer with
  | scalar k => rfl
  | nullable k constructor wrapper =>
    rw [wrap, Calls.wrap, getStatic_eq]
    rfl

theorem mapGet_by : mapGet depth m o = (Calls.nested depth).mapGet m o := by
  rw [Calls.mapGet]
  cases hr : m.reader with
  | none => rw [mapGet, hr]
  | some r =>
    rw [mapGet_eq hr]
    simp only [unwrap_eq]
    rfl

theorem mapSet_by : mapSet depth m o v = (Calls.nested depth).mapSet m o v := by
  rw [Calls.mapSet]
  cases hw : m.writer with
  | none => rw [mapSet, hw]
  | some writer =>
    rw [mapSet_eq hw]
    simp only [wrap_by]
    rfl

end Run

namespace Regime

open Run

variable {G : Regime} {c : Calls} {w : World} {o : ObjectId} {v : Value}

theorem keeps_wrapperObject (hv : G.Admits w v) :
    G.Keeps w (wrapperObject v) fun w' o => G.Admits w' (.object o) := by
  cases v with
  | object o => exact .pure hv
  | null => exact .ask_bind .fail
  | scalar s => exact .ask_bind .fail
  | carrier c => exact .ask_bind .fail

theorem keeps_requireInstance (o : ObjectId) (t : Ty) :
    G.Keeps w (requireInstance o t) fun w' _ => w' = w := by
  refine .later (x := requireInstance o t) (u := w)
    (y := if !w.isInstance o t then fail (.typeMismatch (w.schema.name t) (w.className o)) else pure ())
    rfl (G.refl w) ?_
  split
  · exact .fail
  · exact .pure rfl

theorem keeps_notice (hw : G.Inv w) (m : MemberMapper) (event : Picture → Event) (v : Value) :
    G.Keeps w (notice m event v) fun w' _ => w'.heap = w.heap := by
  rw [notice]
  split
  · exact ⟨(keeps_display hw).1, fun _ _ => rfl⟩
  · exact .pure rfl

section
variable (hc : G.Lawful c) (hw : G.Inv w)
include hc hw

theorem keeps_isAbsent (hv : G.Admits w v) : G.Keeps w (c.isAbsent v) fun _ _ => True := by
  refine (keeps_wrapperObject hv).bind hw fun w₁ o hw₁ _ ho => ?_
  exact (hc.read _ hw₁ ho).bind hw₁ fun _ _ _ _ _ => .pure trivial

theorem keeps_unwrap (r : MemberReader) (hv : G.Admits w v) :
    G.Keeps w (c.unwrap v r) G.Admits := by
  have habsent : G.Keeps w (if r.hasAbsence then c.isAbsent v else pure false) fun _ _ => True := by
    split
    · exact keeps_isAbsent hc hw hv
    · exact .pure trivial
  refine habsent.bind hw fun w₁ absent hw₁ hl _ => ?_
  split
  · exact .pure (G.literal rfl)
  · split
    · exact (keeps_wrapperObject (G.mono hl hv)).bind hw₁ fun w₂ o hw₂ _ ho => hc.read _ hw₂ ho
    · exact .pure (G.mono hl hv)

/-- **Reading a member through its mapper** keeps to a regime. -/
theorem keeps_mapGet (m : MemberMapper) (ho : G.Admits w (.object o)) :
    G.Keeps w (c.mapGet m o) fun _ _ => True := by
  rw [Calls.mapGet]
  cases m.reader with
  | none => exact .ask_bind .fail
  | some r =>
    have hfetch : G.Keeps w (c.fetchMember m o) G.Admits := by
      rw [Calls.fetchMember]
      cases m.access with
      | field slot => exact keeps_field hw ho
      | property => exact hc.read m.member hw ho
    refine (keeps_requireInstance o r.declaring).bind hw fun w₁ _ _ _ he => ?_
    rw [he]
    refine hfetch.bind hw fun w₁ v hw₁ _ hv => ?_
    refine (keeps_unwrap hc hw₁ r hv).bind hw₁ fun w₂ u hw₂ _ _ => ?_
    exact (keeps_notice hw₂ m _ u).bind hw₂ fun _ _ _ _ _ => .ask trivial

/-- A value is stored into a property, or into a field of an object that is open. -/
theorem keeps_storeMember (m : MemberMapper) (ho : G.Admits w (.object o))
    (hopen : ∀ {slot}, m.access = .field slot → G.Opens w o) (hv : G.Admits w v) :
    G.Keeps w (c.storeMember m o v) fun _ _ => True := by
  rw [Calls.storeMember]
  cases hm : m.access with
  | field slot => exact keeps_setField hw (hopen hm) hv
  | property => exact hc.write m.member hw ho hv

end

section
variable (hG : G.Serves) (hc : G.Governs c) (hw : G.Inv w)
include hG hc hw

/-- What a mapper stores is admitted. -/
theorem keeps_wrap (writer : MemberWriter) (hv : G.Admits w v) :
    G.Keeps w (c.wrap v writer) G.Admits := by
  have hconvert : ∀ k, G.Keeps w (convert v k) G.Admits := fun k =>
    .attempt fun u hu => G.literal (Schema.isLiteral_of_convert hu)
  cases writer with
  | scalar k => exact hconvert k
  | nullable k constructor wrapper =>
    rw [Calls.wrap]
    split
    · exact keeps_getStatic hG hc hw wrapper Nullable.sentinelName
    · refine .ask_bind ?_
      split
      · exact .pure hv
      · refine (hconvert k).bind hw fun w₁ u hw₁ _ hu => ?_
        have hargs : ∀ v ∈ [u], G.Admits w₁ v := fun v hv => List.mem_singleton.mp hv ▸ hu
        exact (hc.lawful.construct wrapper constructor hw₁ hargs).bind hw₁ fun _ _ _ _ ho => .pure ho

/-- **Writing a member through its mapper** keeps to a regime, if what a hook makes of the value is
admitted, and if the object is open where the member is a field. -/
theorem keeps_mapSet (m : MemberMapper) (ho : G.Admits w (.object o))
    (hopen : ∀ {slot}, m.access = .field slot → G.Opens w o)
    (hv : G.Admits w (m.hooks.inward w.heap v)) : G.Keeps w (c.mapSet m o v) fun _ _ => True := by
  rw [Calls.mapSet]
  cases m.writer with
  | none => exact .ask_bind .fail
  | some writer =>
    refine (keeps_requireInstance o m.objectType).bind hw fun w₁ _ _ _ he => ?_
    rw [he]
    refine (keeps_notice hw m _ v).bind hw fun w₁ _ hw₁ hl₁ hheap => .ask_bind ?_
    rw [hheap]
    refine (keeps_wrap hG hc hw₁ writer (G.mono hl₁ hv)).bind hw₁ fun w₂ u hw₂ hl₂ hu => ?_
    have hl := G.trans hl₁ hl₂
    exact keeps_storeMember hc.lawful hw₂ m (G.mono hl ho) (fun hm => G.opens_mono hl (hopen hm)) hu

end

end Regime

end RecordForge
