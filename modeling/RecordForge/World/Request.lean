import RecordForge.World.Basic

/-!
# Requests to registries

How a world changes when one of its registries is asked for a descriptor or for a member mapper. A
request that is refused changes nothing. One that is answered from what is published changes
nothing either. Otherwise what the session has made becomes part of the world, all at once.
-/

namespace RecordForge.World

variable (w : World)

/-- The warnings about a class that can be created in one way only, or in none. -/
def unavailableWarnings (d : Descriptor) : List Event :=
  let name := w.schema.shortName d.type
  (if d.canCreate then [] else [.warned (.unavailable .create name)]) ++
    if d.canCreateWith then [] else [.warned (.unavailable .createWith name)]

/-- Writes the report of a new descriptor into a directory, with a warning if that fails. -/
def writeReport (directory : Directory) (d : Descriptor) : Directory × List Event :=
  match d.reportFile? w.schema with
  | none => (directory, [])
  | some (name, text) =>
    match directory.write name text with
    | some directory => (directory, [])
    | none => (directory, [.warned (.dumpFailed (w.schema.name d.type))])

def writeReports (directory : Directory) : List Descriptor → Directory × List Event
  | [] => (directory, [])
  | d :: ds =>
    let (directory, events) := w.writeReport directory d
    let (directory, more) := writeReports directory ds
    (directory, events ++ more)

/-- Makes what a session has made part of the world of the registry that was asked. -/
def adopt (r : RegistryId) (registry : Registry) (s : Session) : World :=
  let w := { w with schema := s.schema, descriptors := s.descriptors, lookups := s.lookups }
  let made := s.staged.filterMap fun (_, d) => s.descriptors[d]?
  let warnings :=
    if registry.options.warns then
      (made.filter fun d => !d.isSynthesized).flatMap w.unavailableWarnings
    else []
  let (directory, failures) :=
    if registry.directory.isWanted then w.writeReports registry.directory made
    else (registry.directory, [])
  { w with
    registries := w.registries.setIfInBounds r { registry.publish s with directory }
    events := (warnings ++ failures).reverse ++ w.events }

/-- The session at the beginning of a request. -/
def session : Session where
  schema := w.schema
  descriptors := w.descriptors
  lookups := w.lookups

def descriptorFor (r : RegistryId) (registry : Registry) (t : Ty) :
    Except RequestError (DescriptorId × World) :=
  match registry.cached? t with
  | some found => .ok (found, w)
  | none => do
    let levels := w.schema.classes.size + 1
    let (found, s) ← registry.find (registry.workshop r w.heap) levels [] t w.session
    return (found, w.adopt r registry s)

def mapperFor (r : RegistryId) (registry : Registry) (request : MemberMapper.Request) :
    Except RequestError (MapperId × World) :=
  match registry.mappers.lookup request with
  | some found => .ok (found, w)
  | none => do
    let m ← MemberMapper.make w.schema registry.hooks request
    let found := w.mappers.size
    return (found, { w with
      mappers := w.mappers.push m
      registries := w.registries.setIfInBounds r
        { registry with mappers := registry.mappers ++ [(request, found)] } })

/-- The descriptor that a lookup stands for. It is asked for once, while the registry still
answers, and then kept. -/
def resolve (l : LookupId) : Except Halt (Descriptor × World) := do
  let missing := Halt.fault (.thrown "mapping registry has been dropped")
  let some lookup := w.lookups[l]? | throw missing
  match lookup.found.bind (w.descriptors[·]?) with
  | some d => return (d, w)
  | none =>
    let some registry := (w.registries[lookup.registry]?).filter Registry.isAlive | throw missing
    match w.descriptorFor lookup.registry registry lookup.fieldType with
    | .error e => throw (e.message?.elim .exhausted fun m => .fault (.thrown m))
    | .ok (found, w) =>
      let some d := w.descriptors[found]? | throw missing
      let lookup := { lookup with found := some found }
      return (d, { w with lookups := w.lookups.setIfInBounds l lookup })

/-- Ends the life of a registry. Descriptors and mappers that it has made go on working. -/
def dropRegistry (r : RegistryId) : World :=
  { w with registries := w.registries.modify r fun registry => { registry with isAlive := false } }

end RecordForge.World
