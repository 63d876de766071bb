import LeaseLog.Json.Fields
import LeaseLog.Stream.Basic

/-!
# JSON forms of streams
-/

namespace LeaseLog

/-- A stream, with its latest state as text. -/
def Stream.toJson (stream : Stream) : Json :=
  .object [("key", .string stream.key), ("id", stream.id.toJson), ("is_new", .bool stream.isNew),
    ("version", stream.version.toJson), ("pointer", .string stream.pointer.toText)]

/-- Extra leases and tags; each list may be missing. -/
def Extras.ofJson? (value : Json) : Option Extras := do
  some {
    addLeases := ← value.listMember? "add_leases" (Json.as? Lease.decoder)
    removeLeases := ← value.listMember? "remove_leases" (Json.as? Lease.decoder)
    addTags := ← value.listMember? "add_tags" (Json.as? Tag.decoder)
    removeTags := ← value.listMember? "remove_tags" (Json.as? Tag.decoder) }

end LeaseLog
