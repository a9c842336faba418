import RecordForge.Proofs.Construction.Survey
import RecordForge.Proofs.Scene.Tidy
import RecordForge.Proofs.Twin.Constructors
import RecordForge.Proofs.Twin.Registries

/-!
# Creations with a carrier and without

An implementation has two constructors. For a plain class they agree: from the same world, a creation
without a carrier and one with a carrier create objects of the same classes with the same fields, up to
the naming of new carriers (`World.Correspond`), and perform the same bodies of users in the same order.

There is one thing in which they differ, and which must not be seen: the factory constructor hands the
carrier that it is given on, and has it hold the construction parameters of nested fields in turn. So
either nobody knows that carrier, or there are no such parameters.
-/

namespace RecordForge

open Run Situation

/-! ## Carriers that nobody knows -/

/-- No carriers but those of a set are known: the fields of objects, the parameters of these carriers and
the values in bodies refer to no others. -/
structure World.Reveals (w : World) (P : CarrierId → Prop) : Prop where
  fields : ∀ {o : ObjectId} {i : Nat} {a : CarrierId}, w.heap.field? o i = some (.carrier a) → P a
  parameters : ∀ {a b : CarrierId} {vs : List Value}, P a → w.heap.parameters? a = some vs →
    .carrier b ∈ vs → P b
  literals : w.schema.Literals fun v => ∀ a, v = .carrier a → P a

/-- Nobody knows a carrier, unless it knows itself. -/
def World.Conceals (w : World) (k : CarrierId) : Prop := w.Reveals (· ≠ k)

theorem World.reveals_all (w : World) : w.Reveals fun _ => True :=
  ⟨fun _ => trivial, fun _ _ _ => trivial, w.schema.literals_true.imp fun _ _ _ _ => trivial⟩

/-- Nobody knows a carrier that has just been made. -/
theorem World.Tidy.conceals_newCarrier {w : World} (hw : w.Tidy) :
    World.Conceals { w with heap := w.heap.newCarrier.2 } w.heap.newCarrier.1 where
  fields hf := Nat.ne_of_lt (hw.heap.known hf)
  parameters {a b vs} ha hvs hb := by
    have hold : w.heap.parameters? a = some vs := by
      rcases Nat.lt_or_gt_of_ne ha with hlt | hlt
      · exact (Heap.parameters?_newCarrier hlt).symm.trans hvs
      · have hnone : w.heap.newCarrier.2.carriers[a]? = none := by
          rw [Heap.newCarrier, Array.getElem?_eq_none_iff, Array.size_push]
          exact hlt
        rw [Heap.parameters?, hnone] at hvs
        cases hvs
    exact Nat.ne_of_lt (hw.heap.parameters hold _ hb)
  literals := hw.literals.imp fun v hv a ha => by
    subst ha
    exact Nat.ne_of_lt hv

/-- A value stands for itself. -/
theorem Value.Known.matches_self {h : Heap} {P : CarrierId → Prop} {v : Value} (hv : v.Known h)
    (hP : ∀ a, v = .carrier a → P a) :
    v.Matches (fun a b => a = b ∧ a < h.carriers.size ∧ P a) v := by
  cases v with
  | null => exact .null
  | scalar s => exact .scalar s
  | object o => exact .object o
  | carrier a => exact .carrier ⟨rfl, hv, hP a rfl⟩

/-- A world is its own twin. The carriers of a set stand for themselves, if no others are known. -/
def Twins.same {w : World} (hw : w.Tidy) {P : CarrierId → Prop} (hP : w.Reveals P) : Twins w where
  left := w
  right := w
  paired a b := a = b ∧ a < w.heap.carriers.size ∧ P a
  leftStays := .refl w
  rightStays := .refl w
  spent := rfl
  events := ⟨[], [], rfl, rfl, .nil⟩
  objects := by
    refine ⟨rfl, fun {o i} ho => ⟨i, ho, rfl, rfl, List.forall₂_same.mpr fun v hv => ?_⟩⟩
    obtain ⟨k, hk⟩ := List.mem_iff_getElem?.mp hv
    have hfield : w.heap.field? o k = some v := Heap.field?_eq_some_iff.mpr ⟨i, ho, hk⟩
    exact (hw.heap.known hfield).matches_self fun a ha => hP.fields (ha ▸ hfield)
  carriers := by
    rintro a _ ⟨rfl, hlt, -⟩
    exact ⟨hlt, hlt⟩
  parameters := by
    rintro a _ ⟨rfl, -, ha⟩
    cases hvs : w.heap.parameters? a with
    | none => exact .none
    | some vs =>
      refine .some (List.forall₂_same.mpr fun v hv => ?_)
      exact (hw.heap.parameters hvs v hv).matches_self fun b hb =>
        hP.parameters ha hvs (hb ▸ hv)
  oneToOne := by
    rintro a _ a' _ ⟨rfl, -⟩ ⟨rfl, -⟩
    exact .rfl
  literals := hw.literals.both (fun _ => Value.Known.matches_self) hP.literals

/-! ## Worlds that correspond -/

/-- Two worlds have come about from one, and differ at the most in the naming of the carriers that are
new, and in the carrier `k`: the objects are of the same classes, their fields, the parameters of the
carriers and what an observer has seen match. -/
structure World.Correspond (w : World) (k : CarrierId) (β : Pairing) (w₁ w₂ : World) : Prop where
  kept : ∀ a, a < w.heap.carriers.size → a ≠ k → β a a
  new : ∀ {a b}, β a b → a = b ∧ a < w.heap.carriers.size ∨
    w.heap.carriers.size ≤ a ∧ w.heap.carriers.size ≤ b
  oneToOne : ∀ {a b a' b'}, β a b → β a' b' → (a = a' ↔ b = b')
  objects : w₁.heap.Mirrors β w₂.heap
  parameters : ∀ {a b}, β a b →
    Option.Rel (Value.AllMatch β) (w₁.heap.parameters? a) (w₂.heap.parameters? b)
  events : ∃ es es', w₁.events = es ++ w.events ∧ w₂.events = es' ++ w.events ∧
    List.Forall₂ (Event.Matches β) es es'

/-- Twins of which the first were the same world correspond. -/
theorem Twins.correspond {w : World} (hw : w.Tidy) {P : CarrierId → Prop} (hP : w.Reveals P)
    {k : CarrierId} (hk : ∀ a, a ≠ k → P a) {T : Twins w} (hl : (Twins.same hw hP).Leads T) :
    w.Correspond k T.paired T.left T.right where
  kept a ha hne := hl.paired a a ⟨rfl, ha, hk a hne⟩
  new hab := by
    rcases hl.fresh hab with ⟨rfl, hlt, -⟩ | hnew
    · exact .inl ⟨rfl, hlt⟩
    · exact .inr hnew
  oneToOne := T.oneToOne
  objects := T.objects
  parameters := T.parameters
  events := T.events

/-! ## The two creations -/

section
variable {w w₁ : World} {r : RegistryId} {registry : Registry} {t : Ty} {e : DescriptorId}
variable {x : Descriptor} {k : CarrierId} {o : ObjectId} {depth : Nat}

/-- The bodies that a creation performs are those of the act that it runs. -/
theorem Descriptor.trail_of_creating {given : Option CarrierId} {act : Act} {os : List ObjectId} (h : x.creating given = some act) :
    x.trail (Trails.nested depth) given w = Situation.trail depth ⟨w, act, os⟩ := by
  cases given with
  | none =>
    obtain ⟨k, hk, rfl⟩ := Option.map_eq_some_iff.mp h
    rw [trail, hk]
    rfl
  | some carrier =>
    obtain ⟨k, hk, rfl⟩ := Option.map_eq_some_iff.mp h
    rw [trail, hk]
    rfl

/-- What a creation without a carrier creates, one with a carrier creates, too. -/
theorem World.createWith_of_create (hw : w.Tidy) (hfurnished : w.Furnished)
    (hfamily : w.Family (registry.provider.Bare w.schema t) (w.Kin registry t))
    (hkin : w.Kin registry t x) (hdefault : x.defaultConstructor = some defaultIndex)
    (hk : k < w.heap.carriers.size)
    (hknown : w.Conceals k ∨ registry.provider.Bare w.schema t)
    (hcreate : Run.create depth x none w = (.ok (.created o), w₁)) :
    ∃ w₂ β, Run.create depth x (some k) w = (.ok (.created o), w₂) ∧ w.Correspond k β w₁ w₂ ∧
      Performance.AllMatch β (x.trail (Trails.nested depth) none w)
        (x.trail (Trails.nested depth) (some k) w) := by
  -- the carriers of the world stand for themselves, all but one that nobody knows
  obtain ⟨P, hP, hrest, hhides⟩ : ∃ P, ∃ hP : w.Reveals P, (∀ a, a ≠ k → P a) ∧
      ((Twins.same hw hP).HidesRight k ∨ registry.provider.Bare w.schema t) := by
    rcases hknown with hconceals | hbare
    · refine ⟨(· ≠ k), hconceals, fun _ => id, .inl ⟨hk, ?_⟩⟩
      rintro a ⟨rfl, -, hne⟩
      exact hne rfl
    · exact ⟨fun _ => True, w.reveals_all, fun _ _ => trivial, .inr hbare⟩
  obtain ⟨plans, infos, base, hbalanced⟩ := hfamily x hkin
  have hwith := hbalanced.createWith (Calls.nested depth) (Trails.nested depth) k
  have htrail : x.trail (Trails.nested depth) none =
      (Trails.nested depth).construct x.product defaultIndex [] := by
    rw [Descriptor.trail, hdefault]
    rfl
  have hconstruct : (Calls.nested depth).construct x.product defaultIndex [] w = (.ok o, w₁) := by
    rw [Run.create, Descriptor.create, hdefault] at hcreate
    rcases guarded_eq_ok hcreate with ⟨o', ho', hconstruct⟩ | ⟨f, hf⟩
    · rwa [Creation.created.inj ho']
    · cases hf
  have hparallel := (Twins.nested_parallel hfurnished hfamily depth).default
    (Twins.same hw hP) hkin hhides
  obtain ⟨T, hl, hleft, hright, hends, hbodies⟩ :=
    hparallel.created (.inr ⟨o, congrArg Prod.fst hconstruct⟩)
  dsimp only at hleft hright hends hbodies
  have hcorrespond := Twins.correspond hw hP hrest hl
  have hw₁ : T.left = w₁ := hleft.symm.trans (congrArg Prod.snd hconstruct)
  rw [hw₁] at hcorrespond
  refine ⟨T.right, T.paired, ?_, hcorrespond, ?_⟩
  · rw [show ((Calls.nested depth).construct x.product defaultIndex []
      (Twins.same hw hP).left).1 = _ from congrArg Prod.fst hconstruct] at hends
    have hsecond : Run.create depth x (some k) =
        x.guarded (Calls.nested depth) factoryIndex [.carrier k] := hwith.1
    rw [hsecond]
    refine Prod.ext ?_ hright
    generalize hr : (x.guarded (Calls.nested depth) factoryIndex [.carrier k]
      (Twins.same hw hP).right).1 = result at hends
    cases hends with
    | ok h =>
      obtain ⟨o', rfl, rfl, -⟩ := h
      exact hr
  · rw [htrail, hwith.2]
    exact hbodies

/-- The published descriptor of an implementation belongs to the family of its class. -/
theorem World.kin_of_cached (h : w.quiet.Sound) (hr : w.registries[r]? = some registry)
    (hc : registry.cached? t = some e) (hx : w.descriptors[e]? = some x)
    (hs : x.isSynthesized = true) :
    w.Kin registry t x ∧ x.defaultConstructor = some defaultIndex := by
  obtain ⟨h₀, -, hserves⟩ := (h.registries (S := w.quiet) hr).serves_cached hc hx
  cases hserves with
  | concrete _ _ _ hx => rw [hx] at hs; cases hs
  | @implemented c i _ hd _ ha _ _ _ hdescriptor =>
    have habstract : w.schema.isAbstract t = true := by
      rw [Schema.isAbstract, show w.schema.decl? t = some c from hd]
      exact ha
    exact ⟨⟨t, e, .self, habstract, hc, hx⟩, by rw [hdescriptor]; rfl⟩

/-- **The two constructors of an implementation agree.** In a world that arises, let a registry that is
alive have implemented a class that is plain, and let the bodies of users that are run in the course of
a creation without a carrier return and leave the objects that are being built as they are. Then that
creation and one with a carrier, both from this world, create objects, and leave worlds that correspond;
and they perform the same bodies in the same order, with arguments that match; every body that is met in the
course of the first creation is among them. The carrier is one that nobody knows, or else no nested field
has construction parameters. -/
theorem World.creations_agree (harises : w.Arises) (hr : w.registries[r]? = some registry)
    (halive : registry.isAlive = true) (hc : registry.cached? t = some e)
    (hx : w.descriptors[e]? = some x) (hs : x.isSynthesized = true)
    (hplain : registry.provider.Plain w.schema t) (hreceivers : w.schema.Responds)
    (husers : ∀ act ∈ x.creating none, ∀ m, Meets ⟨w, act, []⟩ m → m.act.isUser = true →
      ∃ w', m.Ends w' ∧ m.world.Spares m.building w')
    (hk : k < w.heap.carriers.size)
    (hknown : w.Conceals k ∨ registry.provider.Bare w.schema t) :
    (∃ N o w₁ w₂, ∀ depth, N ≤ depth → Run.create depth x none w = (.ok (.created o), w₁) ∧
      Run.create depth x (some k) w = (.ok (.created o), w₂) ∧
      ∃ β, w.Correspond k β w₁ w₂ ∧ Performance.AllMatch β (x.trail (Trails.nested depth) none w)
        (x.trail (Trails.nested depth) (some k) w)) ∧
    ∀ act ∈ x.creating none, ∀ m f body, Meets ⟨w, act, []⟩ m → m.act = .perform f body →
      ∃ N, ∀ depth, N ≤ depth → ⟨f, body⟩ ∈ x.trail (Trails.nested depth) none w := by
  obtain ⟨⟨told, hruns⟩, htidy⟩ := harises.comes_about
  have hsound := Scene.sound_of_runs hruns
  have hsorted := Scene.sorted_of_runs hruns
  have hfamily := World.family_of_plain hsound hr halive hplain
  obtain ⟨hkin, hdefault⟩ := World.kin_of_cached hsound hr hc hx hs
  have hcooperates : ∀ act ∈ x.creating none, Cooperates ⟨w, act, []⟩ := by
    intro act hact
    refine ⟨husers act hact, fun m hm => Act.Homely.answers hsound hsorted hfamily ?_ hm⟩
    obtain ⟨_, -, rfl⟩ := Option.map_eq_some_iff.mp hact
    exact .inr ⟨x, hkin, rfl⟩
  obtain ⟨_, _, o, w₁, hact, hconstructs⟩ :=
    World.exists_constructs hruns hr hc hx hs hreceivers none hcooperates
  have hmet : ∀ act ∈ x.creating none, ∀ m f body, Meets ⟨w, act, []⟩ m → m.act = .perform f body →
      ∃ N, ∀ depth, N ≤ depth → ⟨f, body⟩ ∈ x.trail (Trails.nested depth) none w := by
    intro act hact' m f body hm hbody
    obtain rfl := Option.some.inj (hact'.symm.trans hact)
    obtain ⟨N, hmem⟩ := hm.mem_trail hconstructs.succeeds hbody
    exact ⟨N, fun depth hdepth => Descriptor.trail_of_creating hact ▸ hmem depth hdepth⟩
  refine ⟨?_, hmet⟩
  obtain ⟨N, hcreate⟩ := Descriptor.creating_returns hact hconstructs.returns
  -- the creation without a carrier decides how the other one goes, at each depth
  have hwith := fun depth hdepth => World.createWith_of_create htidy (World.furnished hsound hsorted)
    hfamily hkin hdefault hk hknown (hcreate depth hdepth)
  obtain ⟨w₂, -, hfirst, -⟩ := hwith N (Nat.le_refl N)
  refine ⟨N, o, w₁, w₂, fun depth hdepth => ⟨hcreate depth hdepth, ?_⟩⟩
  obtain ⟨w₂', β, hcreated, hcorrespond, htrails⟩ := hwith depth hdepth
  -- and the other one leaves the same world at all depths
  have hsame : Run.create depth x (some k) w = Run.create N x (some k) w :=
    Run.create_deeper hdepth (by rw [hfirst]; exact fun h => nomatch h)
  obtain rfl : w₂' = w₂ := congrArg Prod.snd (hcreated.symm.trans (hsame.trans hfirst))
  exact ⟨hcreated, β, hcorrespond, htrails⟩

end

/-! ### Scenes -/

namespace Scene

/-- Drafts of a class with a receiver, of one whose constructor takes a scalar, of an abstract class
with a property of each, and of one with two properties of that. Each but the last tells an observer
when one of it is made. -/
def deskDrafts : List ClassDraft :=
  let body (params : List Ty) (steps : Routine) : MemberDraft :=
    .constructor { params, isPublic := true, body := .routine steps }
  let property (name : String) (t : Ty) (attributes : List Attribute) : MemberDraft :=
    .property { World.forestProperty t with name, attributes }
  [{ name := "Desk.Lamp", members := [body [] [.log .className], .receiver [.log .infoName]] },
   { name := "Desk.Tag", members := [body [.scalar .bool] [.log (.argument 0)]] },
   { name := "Desk.Drawer", isAbstract := true
     members := [property "Light" (.cls 0) [],
       property "Label" (.cls 1) [.parameters [.ofBool true]], body [] [.log (.field "_Light")]] },
   { name := "Desk.Desk", isAbstract := true
     members := [property "Left" (.cls 2) [.parameters [.ofBool false]], property "Right" (.cls 2) [],
       .defaultConstructor] }]

/-- The world in which `Desk.Desk` has been implemented, and `Desk.Drawer` with it, and a carrier is
there. -/
def desk : World :=
  { asked deskDrafts (.cls 3) with heap := (asked deskDrafts (.cls 3)).heap.newCarrier.2 }

theorem desk_canDeclare : CanDeclare {} deskDrafts := by decide +kernel

theorem desk_asked_arises : (asked deskDrafts (.cls 3)).Arises :=
  asked_arises desk_canDeclare (by decide) (by decide) (by decide +kernel) (.cls 3)

theorem desk_cooperates : (desk.descriptors[1]?).all (fun x => (x.creating none).all fun act =>
    survey (Calls.nested 12) (cooperates (Calls.nested 12)) 16 ⟨desk, act, []⟩) = true := by
  decide +kernel

/-- A published descriptor of a plain class, from a registry that is alive: all of this can be computed,
given the types of which objects are made. -/
theorem exists_plain {w : World} {t p : Ty} {e : DescriptorId} (us : List Ty)
    (hc : w.registries[0]?.map (fun registry => registry.cached? t) = some (some e))
    (hx : w.descriptors[e]?.map (fun x => (x.isSynthesized, x.product)) = some (true, p))
    (hplain : (w.registries[0]?).all (fun registry => registry.isAlive &&
      decide (registry.provider.PlainAmong w.schema us)) = true) (ht : t ∈ us) :
    ∃ registry x, w.registries[0]? = some registry ∧ registry.isAlive = true ∧
      registry.cached? t = some e ∧ w.descriptors[e]? = some x ∧ x.isSynthesized = true ∧
      registry.provider.Plain w.schema t := by
  obtain ⟨registry, x, hr, hc, hx, hs, -⟩ := exists_published hc hx
  rw [hr, Option.all_some, Bool.and_eq_true, decide_eq_true_eq] at hplain
  exact ⟨registry, x, hr, hplain.1, hc, hx, hs, hplain.2.plain ht⟩

/-- Both ways to create a desk agree. -/
theorem creations_agree_desk : ∃ x N o w₁ w₂, desk.descriptors[1]? = some x ∧
    ∀ depth, N ≤ depth → Run.create depth x none desk = (.ok (.created o), w₁) ∧
      Run.create depth x (some 0) desk = (.ok (.created o), w₂) ∧
      ∃ β, desk.Correspond 0 β w₁ w₂ ∧
        Performance.AllMatch β (x.trail (Trails.nested depth) none desk)
          (x.trail (Trails.nested depth) (some 0) desk) := by
  obtain ⟨registry, x, hr, halive, hc, hx, hs, hplain⟩ := exists_plain (w := desk) (t := .cls 3)
    (e := 1) (p := .cls 5) [.cls 0, .cls 1, .cls 2, .cls 3] (by decide +kernel) (by decide +kernel)
    (by decide +kernel) (by decide)
  obtain ⟨-, htidy⟩ := desk_asked_arises.comes_about
  have hcarriers : (asked deskDrafts (.cls 3)).heap.newCarrier.1 = 0 := by decide +kernel
  have hconceals : desk.Conceals 0 := hcarriers ▸ htidy.conceals_newCarrier
  obtain ⟨⟨N, o, w₁, w₂, h⟩, -⟩ := World.creations_agree (k := 0) desk_asked_arises.newCarrier hr halive
    hc hx hs hplain (Schema.responds_of_all (by decide +kernel))
    (fun act hact => (cooperates_of_survey (World.all_creating desk_cooperates hx act hact)).bodies)
    (by decide +kernel) (.inl hconceals)
  exact ⟨x, N, o, w₁, w₂, hx, h⟩

/-! ### Where they do not agree -/

/-- The world in which a registry has been asked for a type, where a carrier was there before. -/
def carrying (drafts : List ClassDraft) (t : Ty) : World :=
  let w := (opened drafts).world
  World.request { w with heap := w.heap.newCarrier.2 } 0 t

/-- A registry that is alive has implemented a plain class, a carrier is there, and no body of a user
that is run in the course of a creation fails, with that carrier or without. -/
structure Promises (w : World) (t : Ty) (e : DescriptorId) (x : Descriptor) : Prop where
  registry : ∃ registry, w.registries[0]? = some registry ∧ registry.isAlive = true ∧
    registry.cached? t = some e ∧ registry.provider.Plain w.schema t
  descriptor : w.descriptors[e]? = some x
  synthesized : x.isSynthesized = true
  carrier : 0 < w.heap.carriers.size
  users : ∀ given ∈ [none, some 0], ∀ act ∈ x.creating given, ∀ m, Meets ⟨w, act, []⟩ m →
    m.act.isUser = true → ∃ w', m.Ends w'

/-- Whether a body of a user returns. -/
def userReturns (m : Situation) : Bool :=
  !m.act.isUser ||
    match (m.act.run (Calls.nested 12) m.world).1 with
    | .ok _ => true
    | .error _ => false

theorem exists_ends_of_userReturns {m : Situation} (h : userReturns m = true)
    (hu : m.act.isUser = true) : ∃ w, m.Ends w := by
  rw [userReturns, hu, Bool.not_true, Bool.false_or] at h
  split at h
  · next a hrun => exact ⟨_, .of_depth m.act.run_uniform (Prod.ext hrun rfl)⟩
  · cases h

theorem exists_promises {w : World} {t p : Ty} {e : DescriptorId} (us : List Ty)
    (hc : w.registries[0]?.map (fun registry => registry.cached? t) = some (some e))
    (hx : w.descriptors[e]?.map (fun x => (x.isSynthesized, x.product)) = some (true, p))
    (hplain : (w.registries[0]?).all (fun registry => registry.isAlive &&
      decide (registry.provider.PlainAmong w.schema us)) = true) (ht : t ∈ us)
    (hk : 0 < w.heap.carriers.size)
    (husers : ([none, some 0].all fun given => (w.descriptors[e]?).all fun x =>
      (x.creating given).all fun act =>
        survey (Calls.nested 12) userReturns 16 ⟨w, act, []⟩) = true) :
    ∃ x, Promises w t e x := by
  obtain ⟨registry, x, hr, halive, hc, hx, hs, hplain⟩ := exists_plain us hc hx hplain ht
  refine ⟨x, ⟨registry, hr, halive, hc, hplain⟩, hx, hs, hk, ?_⟩
  intro given hgiven act hact m hm hu
  have hsurvey := List.all_eq_true.mp husers given hgiven
  exact exists_ends_of_userReturns (survey_meets (World.all_creating hsurvey hx act hact) hm).2 hu

/-- The world in which `Belfry.Tower` has been implemented. A bell declares the receiver interface, and
has no receiver. -/
def belfry : World :=
  carrying [
    { name := "Belfry.Bell", interfaces := [receiverInterface], members := [.defaultConstructor] },
    { name := "Belfry.Tower", isAbstract := true
      members := [.property (World.forestProperty (.cls 0)), .defaultConstructor] }] (.cls 1)

/-- The world in which `Raid.Camp` has been implemented. When a scout is told its property, it takes
the chest away from the camp. -/
def raid : World :=
  let property (name : String) (t : Ty) : MemberDraft :=
    .property { World.forestProperty t with name }
  carrying [
    { name := "Raid.Scout"
      members := [.defaultConstructor,
        .receiver [.setPropertyOf .owner "Chest" (.value .null)]] },
    { name := "Raid.Chest", members := [.defaultConstructor, .receiver []] },
    { name := "Raid.Camp", isAbstract := true
      members := [property "Scout" (.cls 0), property "Chest" (.cls 1), .defaultConstructor] }]
    (.cls 2)

/-- The world in which `Well.Well` has been implemented, and `Well.Pump` with it. The constructor of a
gauge knows a carrier, and has a meter keep the parameter that it holds. -/
def well : World :=
  let body (params : List Ty) (steps : Routine) : MemberDraft :=
    .constructor { params, isPublic := true, body := .routine steps }
  let property (name : String) (t : Ty) (attributes : List Attribute) : MemberDraft :=
    .property { World.forestProperty t with name, attributes }
  carrying [
    { name := "Well.Meter"
      members := [.auto "Sample" .any,
        body [.carrier] [.setProperty "Sample" (.parameter 0 0)]] },
    { name := "Well.Gauge"
      members := [.auto "Meter" (.cls 0),
        body [] [.setProperty "Meter" (.construct (some (.cls 0)) 0 [.value (.carrier 0)])]] },
    { name := "Well.Pump", isAbstract := true
      members := [property "Gauge" (.cls 1) [], .defaultConstructor] },
    { name := "Well.Well", isAbstract := true
      members := [property "Pump" (.cls 2) [.parameters [.ofBool true]], .defaultConstructor] }]
    (.cls 3)

/-- A meter that keeps nothing. -/
def idleMeter : Instance := ⟨0, false, [.null]⟩

/-- Creations of plain classes can fail although no body of a user does: if a class that declares the
receiver interface has no receiver, or if a receiver takes away the value that is told its property
next. And they can create objects that differ, if a body knows the carrier that one of them is given:
it sees the parameters of a field that encloses it. -/
theorem creations_not_alike :
    (∃ x, Promises belfry (.cls 1) 0 x ∧ ∀ depth, 12 ≤ depth →
      (Run.create depth x none belfry).1 =
        .ok (.failed (.missingMember "Belfry.Bell" "SetInfo"))) ∧
    (∃ x, Promises raid (.cls 2) 0 x ∧ ∀ depth, 12 ≤ depth →
      (Run.create depth x none raid).1 = .ok (.failed (.nullReference "'_Chest' is null"))) ∧
    ∃ x w₁ w₂, Promises well (.cls 3) 1 x ∧
      (∀ depth, 12 ≤ depth → Run.create depth x none well = (.ok (.created 0), w₁)) ∧
      (∀ depth, 12 ≤ depth → Run.create depth x (some 0) well = (.ok (.created 0), w₂)) ∧
      idleMeter ∈ w₁.heap.objects ∧ idleMeter ∉ w₂.heap.objects := by
  refine ⟨?_, ?_, ?_⟩
  · obtain ⟨x, hx⟩ := exists_promises (w := belfry) (t := .cls 1) (e := 0) (p := .cls 2)
      [.cls 0, .cls 1] (by decide +kernel) (by decide +kernel) (by decide +kernel) (by decide)
      (by decide +kernel) (by decide +kernel)
    exact ⟨x, hx, World.create_of_depth (by decide +kernel) hx.descriptor⟩
  · obtain ⟨x, hx⟩ := exists_promises (w := raid) (t := .cls 2) (e := 0) (p := .cls 3)
      [.cls 0, .cls 1, .cls 2] (by decide +kernel) (by decide +kernel) (by decide +kernel)
      (by decide) (by decide +kernel) (by decide +kernel)
    exact ⟨x, hx, World.create_of_depth (by decide +kernel) hx.descriptor⟩
  · obtain ⟨x, hx⟩ := exists_promises (w := well) (t := .cls 3) (e := 1) (p := .cls 5)
      [.cls 1, .cls 2, .cls 3] (by decide +kernel) (by decide +kernel) (by decide +kernel)
      (by decide) (by decide +kernel) (by decide +kernel)
    obtain ⟨w₁, h₁, hidle⟩ := World.create_leaves_of_depth none 12 (.created 0)
      (fun w => decide (idleMeter ∈ w.heap.objects)) (by decide +kernel) hx.descriptor
    obtain ⟨w₂, h₂, hbusy⟩ := World.create_leaves_of_depth (some 0) 12 (.created 0)
      (fun w => decide (idleMeter ∉ w.heap.objects)) (by decide +kernel) hx.descriptor
    exact ⟨x, w₁, w₂, hx, h₁, h₂, of_decide_eq_true hidle, of_decide_eq_true hbusy⟩

end Scene

end RecordForge
