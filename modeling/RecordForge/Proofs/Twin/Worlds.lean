import RecordForge.Proofs.Run.Growth
import RecordForge.Proofs.Twin.Heaps

/-!
# Twin worlds

`Twins` are two worlds that have come about from one world by running bodies, and that cannot be told
apart but by their carriers: objects, events and the parameters of carriers match. The carriers that
stand for each other are *paired*. Each world may have carriers beside that; those are *hidden*, and
one world may change them on its own.
-/

namespace RecordForge

variable {β β' : Pairing}

/-! ## What an observer sees -/

mutual

/-- Two pictures differ at the most in carriers, of which one stands for the other. -/
inductive Picture.Matches (β : Pairing) : Picture → Picture → Prop
  | null : Matches β .null .null
  | scalar (s : Scalar) : Matches β (.scalar s) (.scalar s)
  | carrier {a b : CarrierId} (h : β a b) : Matches β (.carrier a) (.carrier b)
  | shared (cls : String) (o : ObjectId) : Matches β (.shared cls o) (.shared cls o)
  | record (cls : String) (o : ObjectId) {ps qs : List (String × Picture)}
      (h : Picture.AllMatch β ps qs) : Matches β (.record cls o ps) (.record cls o qs)

/-- Pictures of fields that match, one by one. -/
inductive Picture.AllMatch (β : Pairing) : List (String × Picture) → List (String × Picture) → Prop
  | nil : AllMatch β [] []
  | cons (name : String) {p q : Picture} {ps qs : List (String × Picture)} (h : Picture.Matches β p q)
      (hs : AllMatch β ps qs) : AllMatch β ((name, p) :: ps) ((name, q) :: qs)

end

mutual

theorem Picture.Matches.mono (hβ : ∀ a b, β a b → β' a b) {p q : Picture} :
    p.Matches β q → p.Matches β' q
  | .null => .null
  | .scalar s => .scalar s
  | .carrier h => .carrier (hβ _ _ h)
  | .shared cls o => .shared cls o
  | .record cls o h => .record cls o (Picture.AllMatch.mono hβ h)

theorem Picture.AllMatch.mono (hβ : ∀ a b, β a b → β' a b) {ps qs : List (String × Picture)} :
    Picture.AllMatch β ps qs → Picture.AllMatch β' ps qs
  | .nil => .nil
  | .cons name h hs => .cons name (Picture.Matches.mono hβ h) (Picture.AllMatch.mono hβ hs)

end

/-- The pictures of matching values, under the names of fields. -/
theorem Picture.AllMatch.of_fields {f g : Value → Picture} {vs us : List Value}
    (h : Value.AllMatch β vs us) (hfg : ∀ v u, v.Matches β u → (f v).Matches β (g u))
    (names : List String) : Picture.AllMatch β (names.zip (vs.map f)) (names.zip (us.map g)) := by
  induction h generalizing names with
  | nil => cases names <;> exact .nil
  | cons hv _ ih =>
    cases names with
    | nil => exact .nil
    | cons name names => exact .cons name (hfg _ _ hv) (ih names)

theorem Schema.pictureTo_matches (s : Schema) {h h' : Heap} (hm : h.Mirrors β h') (depth : Nat)
    {v u : Value} (hv : v.Matches β u) :
    (s.pictureTo h depth v).Matches β (s.pictureTo h' depth u) := by
  induction depth generalizing v u with
  | zero =>
    cases hv with
    | null => exact .null
    | scalar x => exact .scalar x
    | carrier hc => exact .carrier hc
    | object o =>
      rcases hm.object?_cases o with ⟨hi, hj⟩ | ⟨i, j, hi, hj, hmatch⟩
      · simp only [pictureTo, hi, hj]
        exact .null
      · simp only [pictureTo, hi, hj, hmatch.cls]
        exact .shared _ o
  | succ depth ih =>
    cases hv with
    | null => exact .null
    | scalar x => exact .scalar x
    | carrier hc => exact .carrier hc
    | object o =>
      rcases hm.object?_cases o with ⟨hi, hj⟩ | ⟨i, j, hi, hj, hmatch⟩
      · simp only [pictureTo, hi, hj]
        exact .null
      · simp only [pictureTo, hi, hj, hmatch.cls, hmatch.byValue]
        split
        · exact .record _ o (.of_fields hmatch.fields (fun _ _ => ih) _)
        · exact .shared _ o

/-- Two events show pictures that match. -/
inductive Event.Matches (β : Pairing) : Event → Event → Prop
  | logged {p q : Picture} (h : p.Matches β q) : Matches β (.logged p) (.logged q)
  | outward {p q : Picture} (h : p.Matches β q) : Matches β (.outward p) (.outward q)
  | inward {p q : Picture} (h : p.Matches β q) : Matches β (.inward p) (.inward q)
  | failed (type : String) (f : Fault) : Matches β (.failed type f) (.failed type f)
  | warned (w : Warning) : Matches β (.warned w) (.warned w)

theorem Event.Matches.mono (hβ : ∀ a b, β a b → β' a b) {e e' : Event} (h : e.Matches β e') :
    e.Matches β' e' := by
  cases h with
  | logged h => exact .logged (h.mono hβ)
  | outward h => exact .outward (h.mono hβ)
  | inward h => exact .inward (h.mono hβ)
  | failed type f => exact .failed type f
  | warned w => exact .warned w

/-! ## What bodies leave as it is -/

namespace World

/-- A lookup asks for a type of which its registry has published a descriptor. -/
structure Published (w : World) (l : LookupId) (lookup : Lookup) (registry : Registry)
    (e : DescriptorId) (x : Descriptor) : Prop where
  asks : w.lookups[l]? = some lookup
  serves : w.registries[lookup.registry]? = some registry
  cached : registry.cached? lookup.fieldType = some e
  descriptor : w.descriptors[e]? = some x

/-- The lookup of a step, if there is one, asks for a published type. -/
def Serves (w : World) (step : BuildStep) : Prop :=
  ∀ l source, step.source = .lookup l source → ∃ lookup registry e x, w.Published l lookup registry e x

/-- The lookups of plans ask for published types, and no lookup has found anything else. -/
structure Furnished (w : World) : Prop where
  planned : ∀ {c d}, w.schema.class? c = some d → ∀ ctor ∈ d.constructors, ∀ p,
    ctor.body = .plan p → ∀ step ∈ p.steps, w.Serves step
  found : ∀ {l : LookupId} {lookup : Lookup} {e : DescriptorId}, w.lookups[l]? = some lookup →
    lookup.found = some e → ∃ registry, w.registries[lookup.registry]? = some registry ∧
      registry.cached? lookup.fieldType = some e

/-- Bodies have been run since an earlier world: besides the heap, what is spent and what an observer
has seen, no more has changed than that lookups have found what is published. -/
structure Stays (w₀ w : World) : Prop where
  schema : w.schema = w₀.schema
  descriptors : w.descriptors = w₀.descriptors
  registries : w.registries = w₀.registries
  mappers : w.mappers = w₀.mappers
  statics : w.statics = w₀.statics
  lookups : ∀ l, w.lookups[l]? = w₀.lookups[l]? ∨ ∃ lookup registry e x,
    w₀.Published l lookup registry e x ∧ registry.isAlive = true ∧
      w.lookups[l]? = some { lookup with found := some e }

variable {w₀ w w' : World} {l : LookupId} {lookup : Lookup} {registry : Registry}
variable {e : DescriptorId} {x : Descriptor}

theorem Stays.refl (w : World) : w.Stays w :=
  ⟨rfl, rfl, rfl, rfl, rfl, fun _ => .inl rfl⟩

/-- Changes of the heap, of what is spent, and of what an observer has seen. -/
theorem Stays.change (h : w₀.Stays w) (heap : Heap) (spent : List Nat) (events : List Event) :
    w₀.Stays { w with heap, spent, events } :=
  ⟨h.schema, h.descriptors, h.registries, h.mappers, h.statics, h.lookups⟩

/-- A lookup finds what is published. -/
theorem Stays.find (h : w₀.Stays w) (hp : w₀.Published l lookup registry e x)
    (halive : registry.isAlive = true) :
    w₀.Stays { w with lookups := w.lookups.setIfInBounds l { lookup with found := some e } } := by
  refine ⟨h.schema, h.descriptors, h.registries, h.mappers, h.statics, fun l' => ?_⟩
  simp only [Array.getElem?_setIfInBounds]
  split
  · next heq =>
    subst heq
    split
    · exact .inr ⟨lookup, registry, e, x, hp, halive, rfl⟩
    · next hlt =>
      -- the lookup is there, since it was there before
      rcases h.lookups l with hsame | ⟨_, _, _, _, _, _, hfound⟩
      · rw [hp.asks] at hsame
        exact absurd (Array.getElem?_eq_some_iff.mp hsame).1 hlt
      · exact absurd (Array.getElem?_eq_some_iff.mp hfound).1 hlt
  · exact h.lookups l'

namespace Published

variable (hp : w₀.Published l lookup registry e x)
include hp

/-- A lookup of this number has found nothing since, or what is published. -/
theorem lookup_cases (hw : w₀.Stays w) : w.lookups[l]? = some lookup ∨
    registry.isAlive = true ∧ w.lookups[l]? = some { lookup with found := some e } := by
  rcases hw.lookups l with hsame | ⟨lookup', registry', e', x', hp', halive, hfound⟩
  · exact .inl (hsame.trans hp.asks)
  · obtain rfl := Option.some.inj (hp.asks.symm.trans hp'.asks)
    obtain rfl := Option.some.inj (hp.serves.symm.trans hp'.serves)
    obtain rfl := Option.some.inj (hp.cached.symm.trans hp'.cached)
    exact .inr ⟨halive, hfound⟩

/-- A lookup that has been answered gives its answer. -/
theorem resolve_found (hw : w₀.Stays w) {lookup' : Lookup} (hl : w.lookups[l]? = some lookup')
    (hfound : lookup'.found = some e) :
    ∃ lookups, w.resolve l = .ok (x, { w with lookups }) ∧ w₀.Stays { w with lookups } := by
  refine ⟨w.lookups, resolve_eq_ok_iff.mpr ⟨lookup', hl, .inl ⟨?_, rfl⟩⟩, hw⟩
  rw [hfound, hw.descriptors]
  exact hp.descriptor

/-- **Whether a lookup is answered depends on what bodies leave as it is**: it gives the published
descriptor, or it is refused. -/
theorem resolve (hw : w₀.Furnished) :
    (∀ w, w₀.Stays w → ∃ lookups, w.resolve l = .ok (x, { w with lookups }) ∧
      w₀.Stays { w with lookups }) ∨
    registry.isAlive = false ∧ ∀ w, w₀.Stays w →
      w.resolve l = .error (.fault (.thrown "mapping registry has been dropped")) := by
  cases hfound : lookup.found with
  | some e' =>
    obtain ⟨registry', hr, hc⟩ := hw.found hp.asks hfound
    obtain rfl := Option.some.inj (hp.serves.symm.trans hr)
    obtain rfl := Option.some.inj (hp.cached.symm.trans hc)
    refine .inl fun w hstays => ?_
    rcases hp.lookup_cases hstays with hl | ⟨-, hl⟩
    · exact hp.resolve_found hstays hl hfound
    · exact hp.resolve_found hstays hl rfl
  | none =>
    cases halive : registry.isAlive with
    | true =>
      refine .inl fun w hstays => ?_
      rcases hp.lookup_cases hstays with hl | ⟨-, hl⟩
      · refine ⟨_, resolve_eq_ok_iff.mpr ⟨lookup, hl, .inr ⟨by rw [hfound]; rfl, registry, e, w, ?_,
          halive, ?_, ?_, rfl⟩⟩, hstays.find hp halive⟩
        · rw [hstays.registries]
          exact hp.serves
        · rw [descriptorFor, hp.cached]
        · rw [hstays.descriptors]
          exact hp.descriptor
      · exact hp.resolve_found hstays hl rfl
    | false =>
      refine .inr ⟨rfl, fun w hstays => ?_⟩
      have hl : w.lookups[l]? = some lookup := by
        rcases hp.lookup_cases hstays with hl | ⟨hlives, -⟩
        · exact hl
        · rw [halive] at hlives
          cases hlives
      have hr : w.registries[lookup.registry]? = some registry := by
        rw [hstays.registries]
        exact hp.serves
      simp only [World.resolve, hl, hfound, Option.bind_none, hr, Option.filter, halive]
      rfl

end Published

/-! ## Changes on one side -/

/-- A world changes in a way that only carriers show: some other than those of `P`, and what lookups
have found. -/
structure Tweaks (w₀ w w' : World) (P : CarrierId → Prop) : Prop where
  stays : w₀.Stays w'
  spent : w'.spent = w.spent
  events : w'.events = w.events
  objects : w'.heap.objects = w.heap.objects
  size : w.heap.carriers.size ≤ w'.heap.carriers.size
  parameters : ∀ a, P a → w'.heap.parameters? a = w.heap.parameters? a

end World

namespace Tweaks

variable {w₀ w w' : World} {P : CarrierId → Prop} {k : CarrierId}

/-- A new carrier. -/
theorem newCarrier (hw : w₀.Stays w) (hP : ∀ a, P a → a < w.heap.carriers.size) :
    w₀.Tweaks w { w with heap := w.heap.newCarrier.2 } P where
  stays := hw.change _ _ _
  spent := rfl
  events := rfl
  objects := rfl
  size := (w.heap.newCarrier_grows).carriers
  parameters a ha := Heap.parameters?_newCarrier (hP a ha)

/-- Another carrier is given parameters, or loses them. -/
theorem setParameters (hw : w₀.Stays w) (hP : ∀ a, P a → a ≠ k) (values : Option (List Value)) :
    w₀.Tweaks w { w with heap := w.heap.setParameters k values } P where
  stays := hw.change _ _ _
  spent := rfl
  events := rfl
  objects := rfl
  size := (w.heap.setParameters_grows k values).carriers
  parameters a ha := Heap.parameters?_setParameters_of_ne (Ne.symm (hP a ha))

/-- Lookups are resolved. -/
theorem resolve {lookups : Array Lookup} (hw : w₀.Stays { w with lookups }) :
    w₀.Tweaks w { w with lookups } P :=
  ⟨hw, rfl, rfl, rfl, Nat.le_refl _, fun _ _ => rfl⟩

end Tweaks

/-! ## Twins -/

/-- Two worlds that have come about from one by running bodies, and the carriers of the first that stand
for carriers of the second. Nothing else tells the worlds apart. -/
structure Twins (w₀ : World) where
  left : World
  right : World
  paired : Pairing
  leftStays : w₀.Stays left
  rightStays : w₀.Stays right
  spent : right.spent = left.spent
  events : ∃ es es', left.events = es ++ w₀.events ∧ right.events = es' ++ w₀.events ∧
    List.Forall₂ (Event.Matches paired) es es'
  objects : left.heap.Mirrors paired right.heap
  carriers : ∀ {a b}, paired a b → a < left.heap.carriers.size ∧ b < right.heap.carriers.size
  parameters : ∀ {a b}, paired a b →
    Option.Rel (Value.AllMatch paired) (left.heap.parameters? a) (right.heap.parameters? b)
  oneToOne : ∀ {a b a' b'}, paired a b → paired a' b' → (a = a' ↔ b = b')
  literals : w₀.schema.Literals fun v => v.Matches paired v

namespace Twins

variable {w₀ : World} {T T₁ T₂ T₃ : Twins w₀} {a b : CarrierId}

/-- Twins become others: pairs stay, and new pairs are pairs of new carriers. -/
structure Leads (T T' : Twins w₀) : Prop where
  paired : ∀ a b, T.paired a b → T'.paired a b
  fresh : ∀ {a b}, T'.paired a b → T.paired a b ∨
    T.left.heap.carriers.size ≤ a ∧ T.right.heap.carriers.size ≤ b
  left : T.left.heap.carriers.size ≤ T'.left.heap.carriers.size
  right : T.right.heap.carriers.size ≤ T'.right.heap.carriers.size

theorem Leads.refl (T : Twins w₀) : T.Leads T :=
  ⟨fun _ _ => id, .inl, Nat.le_refl _, Nat.le_refl _⟩

theorem Leads.trans (h : T₁.Leads T₂) (h' : T₂.Leads T₃) : T₁.Leads T₃ where
  paired a b hab := h'.paired a b (h.paired a b hab)
  fresh hab := by
    rcases h'.fresh hab with hab | ⟨ha, hb⟩
    · exact h.fresh hab
    · exact .inr ⟨Nat.le_trans h.left ha, Nat.le_trans h.right hb⟩
  left := Nat.le_trans h.left h'.left
  right := Nat.le_trans h.right h'.right

/-- A carrier of the first world stands for none of the second. -/
def HidesLeft (T : Twins w₀) (a : CarrierId) : Prop :=
  a < T.left.heap.carriers.size ∧ ∀ b, ¬ T.paired a b

/-- No carrier of the first world stands for a carrier of the second. -/
def HidesRight (T : Twins w₀) (b : CarrierId) : Prop :=
  b < T.right.heap.carriers.size ∧ ∀ a, ¬ T.paired a b

theorem HidesLeft.mono (h : T₁.HidesLeft a) (hl : T₁.Leads T₂) : T₂.HidesLeft a := by
  refine ⟨Nat.lt_of_lt_of_le h.1 hl.left, fun b hab => ?_⟩
  rcases hl.fresh hab with hab | ⟨ha, -⟩
  · exact h.2 b hab
  · exact Nat.not_lt_of_le ha h.1

theorem HidesRight.mono (h : T₁.HidesRight b) (hl : T₁.Leads T₂) : T₂.HidesRight b := by
  refine ⟨Nat.lt_of_lt_of_le h.1 hl.right, fun a hab => ?_⟩
  rcases hl.fresh hab with hab | ⟨-, hb⟩
  · exact h.2 a hab
  · exact Nat.not_lt_of_le hb h.1

/-- The first world changes on its own. -/
def moveLeft (T : Twins w₀) (w : World)
    (h : World.Tweaks w₀ T.left w fun a => ∃ b, T.paired a b) : Twins w₀ :=
  { T with
    left := w
    leftStays := h.stays
    spent := T.spent.trans h.spent.symm
    events := h.events ▸ T.events
    objects := ⟨by rw [T.objects.size, h.objects], fun {o i} ho =>
      T.objects.object (by rwa [Heap.object?, h.objects] at ho)⟩
    carriers := fun hab => ⟨Nat.lt_of_lt_of_le (T.carriers hab).1 h.size, (T.carriers hab).2⟩
    parameters := fun {a b} hab => h.parameters a ⟨b, hab⟩ ▸ T.parameters hab }

/-- The second world changes on its own. -/
def moveRight (T : Twins w₀) (w : World)
    (h : World.Tweaks w₀ T.right w fun b => ∃ a, T.paired a b) : Twins w₀ :=
  { T with
    right := w
    rightStays := h.stays
    spent := h.spent.trans T.spent
    events := h.events ▸ T.events
    objects := ⟨by rw [h.objects, T.objects.size], fun {o i} ho => by
      rw [Heap.object?, h.objects]
      exact T.objects.object ho⟩
    carriers := fun hab => ⟨(T.carriers hab).1, Nat.lt_of_lt_of_le (T.carriers hab).2 h.size⟩
    parameters := fun {a b} hab => h.parameters b ⟨a, hab⟩ ▸ T.parameters hab }

theorem leads_moveLeft (T : Twins w₀) {w : World} (h) : T.Leads (T.moveLeft w h) :=
  ⟨fun _ _ => id, .inl, h.size, Nat.le_refl _⟩

theorem leads_moveRight (T : Twins w₀) {w : World} (h) : T.Leads (T.moveRight w h) :=
  ⟨fun _ _ => id, .inl, Nat.le_refl _, h.size⟩

/-- Each world changes on its own. -/
theorem exists_moved (T : Twins w₀) {w w' : World}
    (h : World.Tweaks w₀ T.left w fun a => ∃ b, T.paired a b)
    (h' : World.Tweaks w₀ T.right w' fun b => ∃ a, T.paired a b) :
    ∃ T' : Twins w₀, T.Leads T' ∧ T'.left = w ∧ T'.right = w' := by
  have hr : World.Tweaks w₀ (T.moveLeft w h).right w' fun b => ∃ a, (T.moveLeft w h).paired a b := h'
  exact ⟨_, (T.leads_moveLeft h).trans ((T.moveLeft w h).leads_moveRight hr), rfl, rfl⟩

/-! ### Changes on both sides -/

/-- The objects of both worlds change in the same way. -/
def setObjects (T : Twins w₀) (h h' : Heap) (hm : h.Mirrors T.paired h')
    (hleft : h.carriers = T.left.heap.carriers) (hright : h'.carriers = T.right.heap.carriers) :
    Twins w₀ :=
  { T with
    left := { T.left with heap := h }
    right := { T.right with heap := h' }
    leftStays := T.leftStays.change ..
    rightStays := T.rightStays.change ..
    objects := hm
    carriers := fun hab => by
      dsimp only
      rw [hleft, hright]
      exact T.carriers hab
    parameters := fun hab => by
      simp only [Heap.parameters?, hleft, hright]
      exact T.parameters hab }

theorem leads_setObjects (T : Twins w₀) {h h' : Heap} (hm) (hleft) (hright) :
    T.Leads (T.setObjects h h' hm hleft hright) :=
  ⟨fun _ _ => id, .inl, Nat.le_of_eq (congrArg Array.size hleft.symm),
    Nat.le_of_eq (congrArg Array.size hright.symm)⟩

/-- Both worlds make a carrier. The one stands for the other. -/
def newCarriers (T : Twins w₀) : Twins w₀ :=
  have hmono : ∀ a b, T.paired a b → T.paired a b ∨
      a = T.left.heap.carriers.size ∧ b = T.right.heap.carriers.size := fun _ _ => .inl
  { left := { T.left with heap := T.left.heap.newCarrier.2 }
    right := { T.right with heap := T.right.heap.newCarrier.2 }
    paired := fun a b => T.paired a b ∨
      a = T.left.heap.carriers.size ∧ b = T.right.heap.carriers.size
    leftStays := T.leftStays.change ..
    rightStays := T.rightStays.change ..
    spent := T.spent
    events := by
      obtain ⟨es, es', h, h', hmatch⟩ := T.events
      exact ⟨es, es', h, h', hmatch.imp fun _ _ h => h.mono hmono⟩
    objects := (T.objects.mono hmono).carriers _ _
    carriers := by
      intro a b hab
      simp only [Heap.newCarrier, Array.size_push]
      rcases hab with hab | ⟨rfl, rfl⟩
      · exact ⟨Nat.lt_succ_of_lt (T.carriers hab).1, Nat.lt_succ_of_lt (T.carriers hab).2⟩
      · exact ⟨Nat.lt_succ_self _, Nat.lt_succ_self _⟩
    parameters := by
      intro a b hab
      dsimp only
      rcases hab with hab | ⟨rfl, rfl⟩
      · rw [Heap.parameters?_newCarrier (T.carriers hab).1,
          Heap.parameters?_newCarrier (T.carriers hab).2]
        exact Value.AllMatch.mono_option hmono (T.parameters hab)
      · rw [Heap.parameters?_newCarrier_self, Heap.parameters?_newCarrier_self]
        exact .none
    oneToOne := by
      intro a b a' b' hab hab'
      rcases hab with hab | ⟨rfl, rfl⟩ <;> rcases hab' with hab' | ⟨rfl, rfl⟩
      · exact T.oneToOne hab hab'
      · exact iff_of_false (Nat.ne_of_lt (T.carriers hab).1) (Nat.ne_of_lt (T.carriers hab).2)
      · exact iff_of_false (Nat.ne_of_gt (T.carriers hab').1) (Nat.ne_of_gt (T.carriers hab').2)
      · exact iff_of_true rfl rfl
    literals := T.literals.imp fun _ h => h.mono hmono }

theorem leads_newCarriers (T : Twins w₀) : T.Leads T.newCarriers := by
  refine ⟨fun _ _ => .inl, ?_, T.left.heap.newCarrier_grows.carriers,
    T.right.heap.newCarrier_grows.carriers⟩
  rintro a b (hab | ⟨rfl, rfl⟩)
  · exact .inl hab
  · exact .inr ⟨Nat.le_refl _, Nat.le_refl _⟩

/-- A carrier and the one that it stands for are given parameters that match, or lose them. -/
def setParameters (T : Twins w₀) (hab : T.paired a b) {values values' : Option (List Value)}
    (hv : Option.Rel (Value.AllMatch T.paired) values values') : Twins w₀ :=
  { T with
    left := { T.left with heap := T.left.heap.setParameters a values }
    right := { T.right with heap := T.right.heap.setParameters b values' }
    leftStays := T.leftStays.change ..
    rightStays := T.rightStays.change ..
    objects := T.objects.carriers _ _
    carriers := fun h => by
      simp only [Heap.setParameters, Array.size_setIfInBounds]
      exact T.carriers h
    parameters := by
      intro a' b' hab'
      dsimp only
      by_cases ha : a = a'
      · obtain rfl := (T.oneToOne hab hab').mp ha
        subst ha
        rw [Heap.parameters?_setParameters_self (T.carriers hab).1,
          Heap.parameters?_setParameters_self (T.carriers hab).2]
        exact hv
      · have hb : b ≠ b' := fun hb => ha ((T.oneToOne hab hab').mpr hb)
        rw [Heap.parameters?_setParameters_of_ne ha, Heap.parameters?_setParameters_of_ne hb]
        exact T.parameters hab' }

theorem leads_setParameters (T : Twins w₀) (hab : T.paired a b)
    {values values' : Option (List Value)}
    (hv : Option.Rel (Value.AllMatch T.paired) values values') : T.Leads (T.setParameters hab hv) :=
  ⟨fun _ _ => id, .inl, (T.left.heap.setParameters_grows a values).carriers,
    (T.right.heap.setParameters_grows b values').carriers⟩

/-- Observers of both worlds see something. -/
def observe (T : Twins w₀) {e e' : Event} (he : e.Matches T.paired e') : Twins w₀ :=
  { T with
    left := T.left.observe e
    right := T.right.observe e'
    leftStays := T.leftStays.change ..
    rightStays := T.rightStays.change ..
    events := by
      obtain ⟨es, es', h, h', hmatch⟩ := T.events
      exact ⟨e :: es, e' :: es', congrArg (e :: ·) h, congrArg (e' :: ·) h', .cons he hmatch⟩ }

theorem leads_observe (T : Twins w₀) {e e' : Event} (he : e.Matches T.paired e') :
    T.Leads (T.observe he) := ⟨fun _ _ => id, .inl, Nat.le_refl _, Nat.le_refl _⟩

/-- A step that fails a limited number of times has failed in both worlds. -/
def spend (T : Twins w₀) (site : Nat) : Twins w₀ :=
  { T with
    left := { T.left with spent := site :: T.left.spent }
    right := { T.right with spent := site :: T.right.spent }
    leftStays := T.leftStays.change ..
    rightStays := T.rightStays.change ..
    spent := congrArg (site :: ·) T.spent }

theorem leads_spend (T : Twins w₀) (site : Nat) : T.Leads (T.spend site) :=
  ⟨fun _ _ => id, .inl, Nat.le_refl _, Nat.le_refl _⟩

end Twins

end RecordForge
