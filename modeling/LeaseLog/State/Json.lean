import LeaseLog.Json.Forms
import LeaseLog.State.Basic

/-!
# JSON form of derived state
-/

namespace LeaseLog

/-- An entity under its identifier. -/
def Entity.toJson (id : Ident) (entity : Entity) : Json :=
  .object [("id", id.toJson), ("version", entity.version.toJson),
    ("leases", .ofList Lease.toJson entity.leases.toList),
    ("tags", .ofList Tag.toJson entity.tags.toList),
    ("last_source", entity.lastSource.toJson), ("updated_at", entity.updatedAt.toJson)]

/-- A state: its entities as they were created, its leases in order, and what it was derived
from. -/
def LogState.toJson (state : LogState) : Json :=
  .object [("entities", .ofList (fun (id, entity) => entity.toJson id) state.entityList),
    ("leases", .ofList (fun (lease, holder) =>
      .object [("lease", lease.toJson), ("holder", holder.toJson)]) state.leaseList),
    ("sources", .ofList (fun source => source.id.toJson) state.sources)]

end LeaseLog
