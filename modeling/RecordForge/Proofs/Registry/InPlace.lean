import RecordForge.Proofs.Synthesis.Requests

/-!
# Requests in place

`World.descriptorFor` says what a request gives and what the world is afterwards. Here a request is
carried out step by step on a `Bench`, which holds the world together with what belongs to the
request alone: its session and the types in flight. Each step changes the bench, and a step that
is refused takes nothing back: lookups, classes and descriptors of fields that came before stay on
the bench.

What a refusal leaves on the bench is the request's own all the same. The world is as it was, and no
type is in flight any more: `Work.find_agrees`, by induction on the levels of nesting. So a refused
request makes no difference to any request after it: `World.refused_without_trace`.
-/

namespace RecordForge

/-! ## Work on a bench -/

/-- What a request works on: the world, the session of the request, and the types in flight. -/
structure Bench where
  world : World
  session : Session
  inFlight : List Ty

/-- A computation on a bench. When it is refused, what it has done by then stays done. -/
abbrev Work := ExceptT RequestError (StateM Bench)

namespace Work

variable {α β : Type}

/-- Refuses. -/
def refuse (e : RequestError) : Work α := throw e

/-- The result of a check. -/
def ofExcept : Except RequestError α → Work α
  | .ok a => pure a
  | .error e => refuse e

/-- The session. -/
def session : Work Session := Bench.session <$> get

/-- Changes the session. -/
def change (f : Session → α × Session) : Work α := do
  let b ← get
  let (a, s) := f b.session
  set { b with session := s }
  return a

/-- Changes the session, or refuses. -/
def attempt (f : Session → Except RequestError (α × Session)) : Work α := do
  let b ← get
  let (a, s) ← ofExcept (f b.session)
  set { b with session := s }
  return a

/-- The published descriptor of a type. -/
def published (r : RegistryId) (t : Ty) : Work (Option DescriptorId) := do
  let b ← get
  return (b.world.registries[r]?).bind (·.cached? t)

/-- Whether a type is in flight. -/
def isInFlight (t : Ty) : Work Bool := do
  let b ← get
  return b.inFlight.contains t

/-- Runs `body` with a type in flight. However `body` ends, the type is in flight no more. -/
def whileInFlight (t : Ty) (body : Work α) : Work α := fun b =>
  match body.run { b with inFlight := t :: b.inFlight } with
  | (a, b) => (a, { b with inFlight := b.inFlight.erase t })

end Work

/-! ## The search in place -/

namespace Work

section
variable (w : Workshop) (request : Ty → Work DescriptorId)

/-- The plan of a field whose type is abstract. -/
def planAbstract (f : PropertyField) : Work FieldPlan := do
  let nested ← request f.fieldType
  let lookup ← change (·.addLookup ⟨f.fieldType, w.registry, none⟩)
  let s ← session
  let target := (s.descriptors[nested]?).elim f.fieldType Descriptor.product
  let default ← match f.parameters with
    | some _ => pure (.lookup lookup .transient)
    | none => ofExcept (FieldPlan.fallback s.schema f target)
  return ⟨f.step default, some (f.step (.lookup lookup .argument)), FieldPlan.info? s.schema f⟩

/-- The plan of a field, if the field is owned. -/
def plan (f : PropertyField) : Work (Option FieldPlan) := do
  let s ← session
  match s.schema.decl? f.fieldType with
  | none => return none
  | some d =>
    if d.isValueType || !w.provider.isMapped f.fieldType d then return none
    else if d.isAbstract then do
      let plan ← planAbstract w request f
      return some plan
    else do
      let plan ← ofExcept (FieldPlan.ofConcrete w f s.schema)
      return some plan

/-- The property of an implementation at a slot. -/
def property (owner : Ty) (p : PropertyDecl) (slot : Nat) : Work ForgedProperty := do
  let field ← ofExcept (PropertyField.choose w (← session).schema owner p slot)
  let plan ← plan w request field
  let shape ← ofExcept (field.setterShape (← session).schema)
  return ⟨field, plan, shape⟩

/-- Properties with fields from a slot on. -/
def properties (owner : Ty) : List PropertyDecl → (slot : Nat) → Work (List ForgedProperty)
  | [], _ => return []
  | p :: ps, slot => do
    let f ← property w request owner p slot
    let fs ← properties owner ps (slot + 1)
    return f :: fs

/-- The implementation of an abstract class. -/
def implementation (t : Ty) (d : ClassDecl) : Work Implementation := do
  let s ← session
  let abstracts := ((s.schema.publicProperties t).map Prod.snd).filter PropertyDecl.isAbstract
  let ps ← properties w request t abstracts d.layout.length
  return ⟨t, d, d.name ++ "." ++ w.nameInfix ++ "." ++ Schema.shortOf d.name, ps⟩

end

/-- Finds or makes the descriptor of a type. -/
def find (w : Workshop) : (levels : Nat) → Ty → Work DescriptorId
  | 0, t => do refuse (.cyclicSynthesis ((← session).schema.name t))
  | levels + 1, t => do
    let found ← published w.registry t
    let s ← session
    match found.or (s.staged.lookup t) with
    | some found => return found
    | none =>
      match s.schema.decl? t with
      | none => refuse (.notAClass (s.schema.name t))
      | some d =>
        if !w.provider.isMapped t d then refuse (.notMapped d.name)
        else if !d.isAbstract then
          change (·.stage t (Descriptor.concrete s.schema t w.listener))
        else if ← isInFlight t then refuse (.cyclicSynthesis d.name)
        else do
          let i ← whileInFlight t (implementation w (find w levels) t d)
          attempt (i.finish w)

/-- Asks a registry for the descriptor of a type: from what is published, else in a new session,
which is published at the end. -/
def descriptor (r : RegistryId) (registry : Registry) (t : Ty) : Work DescriptorId := do
  match ← published r t with
  | some found => return found
  | none => do
    let w := (← get).world
    set (Bench.mk w w.session [])
    let found ← find (registry.workshop r w.heap) (w.schema.classes.size + 1) t
    modify fun b => { b with world := b.world.adopt r registry b.session }
    return found

/-- Asks a registry for the mapper of a member. -/
def mapper (r : RegistryId) (registry : Registry) (request : MemberMapper.Request) :
    Work MapperId := do
  match registry.mappers.lookup request with
  | some found => return found
  | none => do
    let w := (← get).world
    let m ← ofExcept (MemberMapper.make w.schema registry.hooks request)
    modify fun b => { b with world :=
      { b.world with
        mappers := b.world.mappers.push m
        registries := b.world.registries.setIfInBounds r
          { registry with mappers := registry.mappers ++ [(request, b.world.mappers.size)] } } }
    return w.mappers.size

end Work

/-! ## Both searches agree -/

/-- A computation in place and one that returns the session agree on a bench: both give the same and
leave the same session, or both are refused for one reason. Then some session is left, and the rest
of the bench is as before. -/
inductive Work.Agrees {α : Type} (b : Bench) (x : Work α) :
    Except RequestError (α × Session) → Prop
  | answered {a : α} {s : Session} (h : x b = (.ok a, { b with session := s })) :
      Agrees b x (.ok (a, s))
  | refused {e : RequestError} {s : Session} (h : x b = (.error e, { b with session := s })) :
      Agrees b x (.error e)

namespace Work

variable {α β : Type} {b : Bench} {x : Work α} {y : Except RequestError (α × Session)}

theorem bind_of_ok {f : α → Work β} {a : α} {b' : Bench} (h : x b = (.ok a, b')) :
    (x >>= f) b = f a b' := by
  show (match x b with | (a, b') => ExceptT.bindCont f a b') = _
  rw [h]
  rfl

theorem bind_of_error {f : α → Work β} {e : RequestError} {b' : Bench}
    (h : x b = (.error e, b')) : (x >>= f) b = (.error e, b') := by
  show (match x b with | (a, b') => ExceptT.bindCont f a b') = _
  rw [h]
  rfl

theorem bind_get (f : Bench → Work α) : ((get : Work Bench) >>= f) b = f b b := rfl

theorem bind_set (b' : Bench) (f : PUnit → Work α) :
    ((set b' : Work PUnit) >>= f) b = f ⟨⟩ b' := rfl

namespace Agrees

/-- One step after the other. -/
theorem bind {f : α → Work β} {g : α × Session → Except RequestError (β × Session)}
    (hx : Agrees b x y) (hf : ∀ a s, Agrees { b with session := s } (f a) (g (a, s))) :
    Agrees b (x >>= f) (y >>= g) := by
  cases hx with
  | @answered a s h =>
    have hnext := hf a s
    show Agrees b (x >>= f) (g (a, s))
    generalize g (a, s) = z at hnext
    cases hnext with
    | answered h' => exact .answered (by rw [bind_of_ok h, h'])
    | refused h' => exact .refused (by rw [bind_of_ok h, h'])
  | refused h => exact .refused (bind_of_error h)

/-- A step that does not touch the bench. -/
theorem bind_pure {c : α} {f : α → Work β} {z : Except RequestError (β × Session)}
    (hx : x b = (.ok c, b)) (hf : Agrees b (f c) z) : Agrees b (x >>= f) z := by
  cases hf with
  | answered h => exact .answered (by rw [bind_of_ok hx, h])
  | refused h => exact .refused (by rw [bind_of_ok hx, h])

/-- A check. -/
theorem bind_ofExcept {c : Except RequestError α} {f : α → Work β}
    {g : α → Except RequestError (β × Session)} (hf : ∀ a, Agrees b (f a) (g a)) :
    Agrees b (ofExcept c >>= f) (c >>= g) := by
  cases c with
  | ok a => exact bind_pure (c := a) rfl (hf a)
  | error e => exact .refused (s := b.session) rfl

/-- A result without a step. -/
theorem pure (a : α) : Agrees b (Pure.pure a) (.ok (a, b.session)) := .answered rfl

theorem refuse (e : RequestError) : Agrees b (Work.refuse (α := α) e) (.error e) :=
  .refused (s := b.session) rfl

/-- A change of the session, and what follows it. -/
theorem bind_change {f : Session → α × Session} {g : α → Work β}
    {z : Except RequestError (β × Session)}
    (hg : Agrees { b with session := (f b.session).2 } (g (f b.session).1) z) :
    Agrees b (Work.change f >>= g) z := by
  have hx : Work.change f b = (.ok (f b.session).1, { b with session := (f b.session).2 }) := rfl
  cases hg with
  | answered h => exact .answered (by rw [bind_of_ok hx, h])
  | refused h => exact .refused (by rw [bind_of_ok hx, h])

/-- A change of the session at the end. -/
theorem change (f : Session → α × Session) : Agrees b (Work.change f) (.ok (f b.session)) :=
  .answered rfl

/-- A change of the session at the end, which may be refused. -/
theorem attempt (f : Session → Except RequestError (α × Session)) :
    Agrees b (Work.attempt f) (f b.session) := by
  have hx : Work.attempt f b = (Work.ofExcept (f b.session) >>= fun as => do
      set { b with session := as.2 }; return as.1 : Work α) b := rfl
  generalize f b.session = y at hx
  cases y with
  | ok as => exact .answered hx
  | error e => exact .refused (s := b.session) hx

/-- The same with a type in flight. -/
theorem whileInFlight {t : Ty}
    (hx : Agrees { b with inFlight := t :: b.inFlight } x y) :
    Agrees b (Work.whileInFlight t x) y := by
  have herase : (t :: b.inFlight).erase t = b.inFlight := List.erase_cons_head ..
  cases hx with
  | @answered a s h =>
    refine .answered (s := s) ?_
    show (match x { b with inFlight := t :: b.inFlight } with
      | (a, b) => (a, { b with inFlight := b.inFlight.erase t })) = _
    rw [h]
    simp only [herase]
  | @refused e s h =>
    refine .refused (s := s) ?_
    show (match x { b with inFlight := t :: b.inFlight } with
      | (a, b) => (a, { b with inFlight := b.inFlight.erase t })) = _
    rw [h]
    simp only [herase]

end Agrees

section
variable {w : Workshop} {request : Ty → Work DescriptorId} {request' : Request}

/-- Planning a field whose type is abstract. -/
theorem planAbstract_agrees (f : PropertyField)
    (h : ∀ s, Agrees { b with session := s } (request f.fieldType) (request' f.fieldType s)) :
    Agrees b (planAbstract w request f) (FieldPlan.ofAbstract w request' f b.session) := by
  refine (h b.session).bind fun nested s => ?_
  refine .bind_change (.bind_pure rfl ?_)
  cases hp : f.parameters with
  | some vs => exact .bind_pure rfl (.pure _)
  | none => exact .bind_ofExcept fun source => .pure _

/-- Planning a field. -/
theorem plan_agrees (f : PropertyField)
    (h : ∀ s, Agrees { b with session := s } (request f.fieldType) (request' f.fieldType s)) :
    Agrees b (plan w request f) (FieldPlan.make w request' f b.session) := by
  refine .bind_pure rfl ?_
  rw [FieldPlan.make]
  cases b.session.schema.decl? f.fieldType with
  | none => exact .pure none
  | some d =>
    dsimp only
    split
    · exact .pure none
    · split
      · exact (planAbstract_agrees f h).bind fun plan s => .pure (some plan)
      · exact .bind_ofExcept fun plan => .pure (some plan)

/-- Making a property. -/
theorem property_agrees (owner : Ty) (p : PropertyDecl) (slot : Nat)
    (h : ∀ F s, Agrees { b with session := s } (request F) (request' F s)) :
    Agrees b (property w request owner p slot)
      (ForgedProperty.make w request' owner p slot b.session) := by
  refine .bind_pure rfl (.bind_ofExcept fun field => ?_)
  refine (plan_agrees field (h field.fieldType)).bind fun plan s => ?_
  exact .bind_pure rfl (.bind_ofExcept fun shape => .pure _)

/-- Making properties. -/
theorem properties_agrees (owner : Ty) (ps : List PropertyDecl) (slot : Nat)
    (h : ∀ F s, Agrees { b with session := s } (request F) (request' F s)) :
    Agrees b (properties w request owner ps slot)
      (ForgedProperty.makeAll w request' owner ps slot b.session) := by
  induction ps generalizing b slot with
  | nil => exact .pure []
  | cons p ps ih =>
    refine (property_agrees owner p slot h).bind fun f s => ?_
    refine Agrees.bind (ih (b := { b with session := s }) (slot + 1) h) fun fs s => ?_
    exact .pure (f :: fs)

/-- Making an implementation. -/
theorem implementation_agrees (t : Ty) (d : ClassDecl)
    (h : ∀ F s, Agrees { b with session := s } (request F) (request' F s)) :
    Agrees b (implementation w request t d) (Implementation.make w request' t d b.session) := by
  refine .bind_pure rfl ?_
  exact (properties_agrees t _ d.layout.length h).bind fun ps s => .pure _

/-- The search in place agrees with the search, whatever is in flight. -/
theorem find_agrees {r : Registry} {w : Workshop} (hr : b.world.registries[w.registry]? = some r)
    (levels : Nat) (t : Ty) :
    Agrees b (find w levels t) (r.find w levels b.inFlight t b.session) := by
  induction levels generalizing b t with
  | zero => exact .bind_pure rfl (.refuse _)
  | succ levels ih =>
    have hpublished : published w.registry t b = (.ok (r.cached? t), b) := by
      show (Except.ok ((b.world.registries[w.registry]?).bind (·.cached? t)), b) = _
      rw [hr, Option.bind_some]
    refine .bind_pure hpublished (.bind_pure rfl ?_)
    rw [Registry.find]
    cases (r.cached? t).or (b.session.staged.lookup t) with
    | some found => exact .pure found
    | none =>
      cases b.session.schema.decl? t with
      | none => exact .refuse _
      | some d =>
        dsimp only
        split
        · exact .refuse _
        · split
          · exact .change _
          · refine .bind_pure (c := b.inFlight.contains t) rfl ?_
            split
            · exact .refuse _
            · -- the request for a field type finds `t` in flight, and `t` leaves it afterwards
              refine Agrees.bind (.whileInFlight (implementation_agrees t d fun F s => ?_))
                fun i s => .attempt _
              exact ih (b := ⟨b.world, s, t :: b.inFlight⟩) hr F

end

/-- How a request in place ends that began in a world: with a result and a new world, or refused and
with the world that it began with. -/
inductive Ends (w : World) (x : Except RequestError α × Bench) :
    Except RequestError (α × World) → Prop
  | answered {a : α} {b : Bench} (h : x = (.ok a, b)) : Ends w x (.ok (a, b.world))
  | refused {e : RequestError} {b : Bench} (h : x = (.error e, b)) (hw : b.world = w) :
      Ends w x (.error e)

section
variable {w : World} {r : RegistryId} {registry : Registry}

/-- A request for a descriptor ends as `World.descriptorFor` says. -/
theorem descriptor_ends (hr : w.registries[r]? = some registry) (s : Session) (inFlight : List Ty)
    (t : Ty) : Ends w (descriptor r registry t ⟨w, s, inFlight⟩) (w.descriptorFor r registry t) := by
  have hpublished : published r t ⟨w, s, inFlight⟩ =
      (.ok (registry.cached? t), ⟨w, s, inFlight⟩) := by
    show (Except.ok ((w.registries[r]?).bind (·.cached? t)), _) = _
    rw [hr, Option.bind_some]
  rw [descriptor, bind_of_ok hpublished, World.descriptorFor]
  cases registry.cached? t with
  | some found => exact .answered rfl
  | none =>
    -- a new session, with nothing in flight
    have hfind := find_agrees (b := ⟨w, w.session, []⟩) (w := registry.workshop r w.heap) hr
      (w.schema.classes.size + 1) t
    dsimp only
    rw [bind_get, bind_set]
    generalize registry.find (registry.workshop r w.heap) (w.schema.classes.size + 1) []
      t w.session = y at hfind ⊢
    cases hfind with
    | @answered found s' h =>
      rw [bind_of_ok h]
      exact .answered (b := ⟨w.adopt r registry s', s', []⟩) rfl
    | refused h =>
      rw [bind_of_error h]
      exact .refused rfl rfl

/-- A request for a mapper ends as `World.mapperFor` says. -/
theorem mapper_ends (w : World) (r : RegistryId) (registry : Registry) (s : Session)
    (inFlight : List Ty) (m : MemberMapper.Request) :
    Ends w (mapper r registry m ⟨w, s, inFlight⟩) (w.mapperFor r registry m) := by
  rw [mapper, World.mapperFor]
  cases registry.mappers.lookup m with
  | some found => exact .answered rfl
  | none =>
    dsimp only
    rw [bind_get]
    dsimp only
    cases MemberMapper.make w.schema registry.hooks m with
    | error e => exact .refused rfl rfl
    | ok made => exact .answered rfl

/-- A result under another name. -/
theorem Ends.map {x : Work α} {b : Bench} {y : Except RequestError (α × World)} (f : α → β)
    (h : Ends w (x b) y) : Ends w ((f <$> x) b) (y.map fun (a, w) => (f a, w)) := by
  have hmap : (f <$> x) b = (x >>= fun a => Pure.pure (f a)) b := rfl
  rw [hmap]
  generalize hx : x b = z at h
  cases h with
  | answered h => subst h; rw [bind_of_ok hx]; exact .answered rfl
  | refused h hw => subst h; rw [bind_of_error hx]; exact .refused rfl hw

end

end Work

/-! ## Sequences of requests -/

/-- What a registry is asked for: the descriptor of a type, or the mapper of a member. -/
inductive Subject where
  | type (t : Ty)
  | member (m : MemberMapper.Request)

/-- A request to a registry. -/
structure Query where
  registry : RegistryId
  subject : Subject

/-- What a request gives. -/
inductive Answer where
  | descriptor (d : DescriptorId)
  | mapper (m : MapperId)
deriving DecidableEq, Repr

/-- A request in place. -/
def Subject.work (r : RegistryId) (registry : Registry) : Subject → Work Answer
  | .type t => .descriptor <$> Work.descriptor r registry t
  | .member m => .mapper <$> Work.mapper r registry m

/-- What a request gives, with the world afterwards. -/
def Subject.reply (w : World) (r : RegistryId) (registry : Registry) :
    Subject → Except RequestError (Answer × World)
  | .type t => (w.descriptorFor r registry t).map fun (d, w) => (.descriptor d, w)
  | .member m => (w.mapperFor r registry m).map fun (m, w) => (.mapper m, w)

namespace World

/-- Serves a request in place: gives its answer, if the registry is there, and the world that it has
left. -/
def serve (w : World) (q : Query) : Option (Except RequestError Answer) × World :=
  match w.registries[q.registry]? with
  | none => (none, w)
  | some registry =>
    match q.subject.work q.registry registry ⟨w, w.session, []⟩ with
    | (a, b) => (some a, b.world)

/-- Serves requests in place, one after the other. -/
def serveAll (w : World) : List Query → List (Option (Except RequestError Answer)) × World
  | [] => ([], w)
  | q :: qs =>
    let (a, w) := w.serve q
    let (as, w) := serveAll w qs
    (a :: as, w)

variable {w : World} {q : Query} {registry : Registry}

/-- A request in place ends as its reply says. -/
theorem serve_ends (hr : w.registries[q.registry]? = some registry) :
    Work.Ends w (q.subject.work q.registry registry ⟨w, w.session, []⟩)
      (q.subject.reply w q.registry registry) := by
  cases q.subject with
  | type t => exact (Work.descriptor_ends hr _ _ t).map _
  | member m => exact (Work.mapper_ends w _ registry _ _ m).map _

/-- Serving a request in place comes to the same as taking over the world of its reply, or none if it
is refused. -/
theorem serve_eq (hr : w.registries[q.registry]? = some registry) :
    w.serve q = match q.subject.reply w q.registry registry with
      | .ok (a, w') => (some (.ok a), w')
      | .error e => (some (.error e), w) := by
  have hends := serve_ends hr
  simp only [serve, hr]
  generalize q.subject.reply w q.registry registry = y at hends ⊢
  cases hends with
  | answered h => rw [h]
  | refused h hw =>
    rw [h]
    simp only [hw]

/-- A refused request leaves the world as it was. -/
theorem serve_of_refused {e : RequestError} (h : (w.serve q).1 = some (.error e)) :
    w.serve q = (some (.error e), w) := by
  cases hr : w.registries[q.registry]? with
  | none => simp [serve, hr] at h
  | some registry =>
    rw [serve_eq hr] at h ⊢
    cases hreply : q.subject.reply w q.registry registry with
    | ok aw => simp [hreply] at h
    | error e' =>
      simp only [hreply, Option.some.injEq, Except.error.injEq] at h
      rw [h]

theorem serveAll_append (w : World) (qs qs' : List Query) :
    w.serveAll (qs ++ qs') =
      ((w.serveAll qs).1 ++ ((w.serveAll qs).2.serveAll qs').1,
        ((w.serveAll qs).2.serveAll qs').2) := by
  induction qs generalizing w with
  | nil => rfl
  | cons q qs ih => simp only [List.cons_append, serveAll, ih]

theorem length_serveAll (w : World) (qs : List Query) : (w.serveAll qs).1.length = qs.length := by
  induction qs generalizing w with
  | nil => rfl
  | cons q qs ih => simp only [serveAll, List.length_cons, ih]

/-- **A refused request leaves no trace.** After any requests, a request that is refused leaves the
world as it was: every registry with its published descriptors and their number of implementations,
its mappers and its directory of reports. All later requests are answered as if the refused one had
never been made, and the world is the same in the end. -/
theorem refused_without_trace (w : World) (before : List Query) (q : Query) (e : RequestError)
    (h : ((w.serveAll before).2.serve q).1 = some (.error e)) :
    ((w.serveAll before).2.serve q).2 = (w.serveAll before).2 ∧
      ∀ after, (w.serveAll (before ++ q :: after)).2 = (w.serveAll (before ++ after)).2 ∧
        ∃ earlier later, earlier.length = before.length ∧
          (w.serveAll (before ++ after)).1 = earlier ++ later ∧
          (w.serveAll (before ++ q :: after)).1 = earlier ++ some (.error e) :: later := by
  have hq := serve_of_refused h
  refine ⟨by rw [hq], fun after => ?_⟩
  rw [serveAll_append, serveAll_append]
  simp only [serveAll, hq]
  exact ⟨trivial, _, _, length_serveAll w before, rfl, rfl⟩

/-- `forest` with a class below: an abstract one that has a property of type `Forest.Tree`, which is
accepted, before one of type `Forest.Loop`, which is not. -/
def thicket : World where
  schema :=
    let grove : ClassDecl := {
      name := "Forest.Grove", bases := [], isAbstract := true, isValueType := false
      isSerializable := false, interfaces := [], allInterfaces := [], layout := [], ownStart := 0
      properties := [forestProperty (.cls 1), { forestProperty (.cls 2) with name := "Outer" }]
      constructors := [⟨[], true, .chain none⟩], statics := [], receiver := none, owned := none }
    { classes := forest.schema.classes.push grove }
  registries := forest.registries

/-- When `Forest.Grove` is refused because of `Forest.Loop`, an implementation of `Forest.Tree` has
been made already. It is on the bench, and not in the world. -/
theorem refused_without_trace_thicket :
    (thicket.serve ⟨0, .type (.cls 3)⟩).1 =
        some (.error (.cyclicSynthesis "Forest.Loop")) ∧
      ((Work.descriptor 0 forestRegistry (.cls 3) ⟨thicket, thicket.session, []⟩).2.session.staged =
        [(.cls 1, 0)]) ∧
      (thicket.serve ⟨0, .type (.cls 3)⟩).2 = thicket := by
  have h : (thicket.serve ⟨0, .type (.cls 3)⟩).1 =
      some (.error (.cyclicSynthesis "Forest.Loop")) := rfl
  exact ⟨h, rfl, (refused_without_trace thicket [] ⟨0, .type (.cls 3)⟩ _ h).1⟩

end World

end RecordForge
