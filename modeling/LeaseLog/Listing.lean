import LeaseLog.Query.Plan
import LeaseLog.State.Basic

/-!
# Listings

What a log can be asked to list. Every listing has its own items, and the rows by which they are
selected.
-/

namespace LeaseLog

/-- What is listed. -/
inductive Listing
  | sourceIds
  | pointers
  | agents
  | deltas
  | leases
  | tags
deriving DecidableEq, Repr

namespace Listing

/-- The items of a listing. -/
abbrev Item : Listing → Type
  | .sourceIds => Ident
  | .pointers => Pointer
  | .agents => Envelope
  | .deltas => DeltaRecord
  | .leases => LeaseRecord
  | .tags => TagRecord

/-- What is seen of a source: its own fields, and the fields of all its messages. -/
def sourceRow (source : Source) : Row where
  sourceIds := [source.id]
  timestamp := some source.timestamp
  dataTypes := source.agent.dataType :: source.messages.map fun message => message.delta.dataType
  states := source.messages.map Message.state
  leases := source.messages.flatMap Message.addLeases
  tags := source.messages.flatMap Message.addTags

/-- What is seen of an entity, with the leases and tags that are listed for it. -/
def entityRow (id : Ident) (entity : Entity) (leases : List Lease) (tags : List Tag) : Row where
  sourceIds := [entity.lastSource]
  timestamp := some entity.updatedAt
  dataTypes := []
  states := [⟨id, entity.version⟩]
  leases := leases
  tags := tags

/-- What is seen of a message of a source. -/
def messageRow (source : Source) (message : Message) : Row where
  sourceIds := [source.id]
  timestamp := some source.timestamp
  dataTypes := [message.delta.dataType]
  states := [message.state]
  leases := message.addLeases
  tags := message.addTags

/-- The source identifiers, in commit order. -/
def sourceRows (state : LogState) : List (Row × Ident) :=
  state.sources.map fun source => (sourceRow source, source.id)

/-- The current states, in the order in which the entities were created. -/
def pointerRows (state : LogState) : List (Row × Pointer) :=
  state.entityList.map fun (id, entity) =>
    (entityRow id entity entity.leases.toList entity.tags.toList, ⟨id, entity.version⟩)

/-- The signatures of the sources, in commit order. -/
def agentRows (state : LogState) : List (Row × Envelope) :=
  state.sources.map fun source => (sourceRow source, source.agent)

/-- The committed deltas, in commit order. -/
def deltaRows (state : LogState) : List (Row × DeltaRecord) :=
  state.sources.flatMap fun source =>
    source.messages.map fun message =>
      (messageRow source message, ⟨source.id, message.state, message.delta⟩)

/-- The live leases in order. -/
def leaseRows (state : LogState) : List (Row × LeaseRecord) :=
  state.leaseList.filterMap fun (lease, holder) =>
    (state.entity? holder).map fun entity =>
      (entityRow holder entity [lease] [], ⟨lease, ⟨holder, entity.version⟩⟩)

/-- The live tags, entity by entity in the order of creation, and in order within an entity. -/
def tagRows (state : LogState) : List (Row × TagRecord) :=
  state.entityList.flatMap fun (id, entity) =>
    entity.tags.toList.map fun tag =>
      (entityRow id entity [] [tag], ⟨tag, ⟨id, entity.version⟩⟩)

/-- The items of a listing with the rows by which they are selected. -/
def rows : (listing : Listing) → LogState → List (Row × listing.Item)
  | .sourceIds => sourceRows
  | .pointers => pointerRows
  | .agents => agentRows
  | .deltas => deltaRows
  | .leases => leaseRows
  | .tags => tagRows

/-- What a plan selects from a listing of a log. -/
def snapshot (listing : Listing) (state : LogState) (plan : Plan) : List listing.Item :=
  plan.select (listing.rows state)

end Listing

end LeaseLog
