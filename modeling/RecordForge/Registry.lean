import RecordForge.Synthesis.Implementation
import RecordForge.MemberMapper
import RecordForge.Options.Basic

/-!
# Registries

A registry finds the descriptors of types, and makes those that it does not have. What one request
makes is published together, after the whole request has succeeded; a request that fails leaves no
trace. A descriptor that is published is never replaced.

While an implementation is made, its class is *in flight*. A class in flight that is needed again
is a cycle. Each level of nesting puts another abstract class in flight, so there are no more
levels than classes: this bounds the recursion.
-/

namespace RecordForge

abbrev MapperId := Nat

structure Registry where
  provider : Provider
  listener : Listener
  hooks : Hooks
  options : Options
  directory : Directory
  /-- The published descriptors by type. -/
  cache : List (Ty × DescriptorId) := []
  /-- The member mappers by request. -/
  mappers : List (MemberMapper.Request × MapperId) := []
  /-- How many implementations have been published. -/
  synthesized : Nat := 0
  /-- Whether the registry still answers. -/
  isAlive : Bool := true

namespace Registry

def cached? (r : Registry) (t : Ty) : Option DescriptorId := r.cache.lookup t

/-- What making implementations for a registry depends on. -/
def workshop (r : Registry) (id : RegistryId) (h : Heap) : Workshop where
  provider := r.provider
  registry := id
  nameInfix := r.options.nameInfix
  listener := r.listener
  heap := h

/-- Finds or makes the descriptor of a type within a session, with the classes that are in flight
and a bound on the levels of nesting. -/
def find (r : Registry) (w : Workshop) : (levels : Nat) → (inFlight : List Ty) → Request
  | 0, _, t, s => .error (.cyclicSynthesis (s.schema.name t))
  | levels + 1, inFlight, t, s =>
    match (r.cached? t).or (s.staged.lookup t) with
    | some found => .ok (found, s)
    | none =>
      match s.schema.decl? t with
      | none => .error (.notAClass (s.schema.name t))
      | some d =>
        if !w.provider.isMapped t d then .error (.notMapped d.name)
        else if !d.isAbstract then
          .ok (s.stage t (Descriptor.concrete s.schema t w.listener))
        else if inFlight.contains t then .error (.cyclicSynthesis d.name)
        else do
          let (i, s) ← Implementation.make w (find r w levels (t :: inFlight)) t d s
          i.finish w s

/-- The descriptors that a request has made, published. -/
def publish (r : Registry) (s : Session) : Registry :=
  { r with
    cache := r.cache ++ s.staged.filter fun (t, _) => (r.cached? t).isNone
    synthesized := r.synthesized +
      s.staged.countP fun (_, d) => (s.descriptors[d]?).any Descriptor.isSynthesized }

end Registry

end RecordForge
