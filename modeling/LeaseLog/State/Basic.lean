import LeaseLog.OrdSet
import LeaseLog.Source

/-!
# Derived state

What committed sources add up to: the version, the live leases and the live tags of every entity,
and an index from leases to their holders.
-/

namespace LeaseLog

/-- What a message is checked against. -/
structure StateView where
  /-- The stored version of an entity; zero if it was never written. -/
  versionOf : Ident → Version
  leaseHolder : Lease → Option Ident

/-- The current state of an entity. -/
structure Entity where
  version : Version
  leases : OrdSet Lease
  tags : OrdSet Tag
  /-- The source that wrote the entity last. -/
  lastSource : Ident
  updatedAt : Instant
deriving DecidableEq

namespace Entity

/-- An entity that a source is about to write for the first time. -/
def unwritten (source : Source) : Entity := ⟨.zero, ∅, ∅, source.id, source.timestamp⟩

instance : Inhabited Entity := ⟨unwritten default⟩

end Entity

/-- The state derived from an ordered list of sources. -/
structure LogState where
  entities : Std.ExtTreeMap Ident Entity
  /-- The entities in the order in which they were first written. -/
  created : List Ident
  leases : Std.ExtTreeMap Lease Ident
  /-- The sources in the order in which they were applied. -/
  sources : List Source
deriving DecidableEq

namespace LogState

/-- The state of an empty log. -/
def empty : LogState := ⟨∅, [], ∅, []⟩

instance : Inhabited LogState := ⟨empty⟩

/-- The state of an entity that was written. -/
def entity? (state : LogState) (id : Ident) : Option Entity := state.entities[id]?

/-- The stored version of an entity; zero if it was never written. -/
def versionOf (state : LogState) (id : Ident) : Version :=
  match state.entity? id with
  | some entity => entity.version
  | none => .zero

/-- The entity that holds a lease. -/
def leaseHolder (state : LogState) (lease : Lease) : Option Ident := state.leases[lease]?

/-- The view that messages are checked against. -/
def view (state : LogState) : StateView := ⟨state.versionOf, state.leaseHolder⟩

/-- The entities in the order in which they were first written. -/
def entityList (state : LogState) : List (Ident × Entity) :=
  state.created.filterMap fun id => (state.entity? id).map fun entity => (id, entity)

/-- The live leases in order, with their holders. -/
def leaseList (state : LogState) : List (Lease × Ident) := state.leases.toList

end LogState

end LeaseLog
