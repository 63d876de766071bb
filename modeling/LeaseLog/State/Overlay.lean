import LeaseLog.State.Invariant

/-!
# Applying a source

The messages of a source gather in an overlay over the live state, and every message is checked
against what the messages before it left. The live state changes once all of them are accepted.
-/

namespace LeaseLog

/-- The pending changes of one source. -/
structure Overlay where
  /-- The entities that were written, with their new state. -/
  entities : Std.ExtTreeMap Ident Entity
  /-- The leases that changed hands; released ones have no holder. -/
  leases : Std.ExtTreeMap Lease (Option Ident)
  /-- The entities that were written for the first time, in order. -/
  created : List Ident

namespace Overlay

/-- No changes. -/
def empty : Overlay := ⟨∅, ∅, []⟩

/-- The version of an entity under pending changes. -/
def versionOf (base : LogState) (overlay : Overlay) (id : Ident) : Version :=
  match overlay.entities[id]? with
  | some entity => entity.version
  | none => base.versionOf id

/-- The holder of a lease under pending changes. -/
def leaseHolder (base : LogState) (overlay : Overlay) (lease : Lease) : Option Ident :=
  match overlay.leases[lease]? with
  | some holder => holder
  | none => base.leaseHolder lease

/-- The view that the next message is checked against. -/
def view (base : LogState) (overlay : Overlay) : StateView :=
  ⟨overlay.versionOf base, overlay.leaseHolder base⟩

/-- Releases a lease of an entity, if the entity holds it. -/
def release (base : LogState) (id : Ident) (pending : Overlay × Entity) (lease : Lease) :
    Overlay × Entity :=
  if pending.1.leaseHolder base lease = some id then
    ({ pending.1 with leases := pending.1.leases.insert lease none },
      { pending.2 with leases := pending.2.leases.remove lease })
  else pending

/-- Takes a lease for an entity. -/
def acquire (id : Ident) (pending : Overlay × Entity) (lease : Lease) : Overlay × Entity :=
  ({ pending.1 with leases := pending.1.leases.insert lease (some id) },
    { pending.2 with leases := pending.2.leases.add lease })

/-- The state of an entity before a message of a source, and the changes with the entity noted as
created if it is new. -/
def fetch (base : LogState) (overlay : Overlay) (id : Ident) (source : Source) :
    Overlay × Entity :=
  match overlay.entities[id]? with
  | some entity => (overlay, entity)
  | none =>
    match base.entity? id with
    | some entity => (overlay, entity)
    | none => ({ overlay with created := overlay.created ++ [id] }, .unwritten source)

/-- Adds the changes of a message. Removals go first, so that a lease can move within a source. -/
def apply (base : LogState) (source : Source) (overlay : Overlay) (message : Message) : Overlay :=
  let id := message.state.id
  let fetched := overlay.fetch base id source
  let released := message.removeLeases.foldl (release base id) fetched
  let (overlay, entity) := message.addLeases.foldl (acquire id) released
  let tags := message.addTags.foldl OrdSet.add (message.removeTags.foldl OrdSet.remove entity.tags)
  { overlay with
    entities := overlay.entities.insert id
      ⟨message.state.version, entity.leases, tags, source.id, source.timestamp⟩ }

/-- Checks and adds messages one after another, up to the first one that breaks a rule. -/
def applyAll (base : LogState) (invariants : List Invariant) (source : Source) :
    Overlay → List Message → Except Violation Overlay
  | overlay, [] => .ok overlay
  | overlay, message :: messages =>
    match Invariant.check (overlay.view base) message invariants with
    | .error violation => .error violation
    | .ok () => applyAll base invariants source (overlay.apply base source message) messages

/-- The live state with pending changes and the source that made them. -/
def merge (base : LogState) (overlay : Overlay) (source : Source) : LogState where
  entities := base.entities ∪ overlay.entities
  created := base.created ++ overlay.created
  leases := overlay.leases.toList.foldl
    (fun leases (lease, holder) => leases.alter lease fun _ => holder) base.leases
  sources := base.sources ++ [source]

end Overlay

/-- Applies a source as a whole, or reports the first message that breaks a rule. -/
def LogState.apply (state : LogState) (source : Source) (invariants : List Invariant) :
    Except Violation LogState :=
  match Overlay.applyAll state invariants source .empty source.messages with
  | .error violation => .error violation
  | .ok overlay => .ok (overlay.merge state source)

end LeaseLog
