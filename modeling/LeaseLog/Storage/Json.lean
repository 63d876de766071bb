import LeaseLog.Json.Fields
import LeaseLog.Storage.Basic

/-!
# JSON forms of listings and of scripted failures

Listings have names, and their items have forms. A script of failures is an object with a list for
every sort of call; members that are missing leave a call as it is. Durations are given in
milliseconds.
-/

namespace LeaseLog

namespace Listing

/-- A listing by its name. -/
def ofText? : String → Option Listing
  | "source_ids" => some .sourceIds
  | "state_pointers" => some .pointers
  | "agent_signatures" => some .agents
  | "deltas" => some .deltas
  | "leases" => some .leases
  | "tags" => some .tags
  | _ => none

/-- The form of an item. -/
def itemToJson : (listing : Listing) → listing.Item → Json
  | .sourceIds => Ident.toJson
  | .pointers => Pointer.toJson
  | .agents => Envelope.toJson
  | .deltas => DeltaRecord.toJson
  | .leases => LeaseRecord.toJson
  | .tags => TagRecord.toJson

/-- An item of its form. -/
def itemDecoder : (listing : Listing) → Decoder listing.Item
  | .sourceIds => Ident.decoder
  | .pointers => Pointer.decoder
  | .agents => Envelope.decoder
  | .deltas => DeltaRecord.decoder
  | .leases => LeaseRecord.decoder
  | .tags => TagRecord.decoder

end Listing

/-- A repository error by its kind. -/
def RepositoryError.ofJson? (value : Json) : Option RepositoryError := do
  match ← (← value.member? "kind").text? with
  | "cancelled" => some .cancelled
  | "read_only" => some .readOnly
  | "closed" => some .closed
  | "timeout" => some (.timeout (← (← value.member? "ms").nat?))
  | "backend" => some (.backend (← (← value.member? "text").text?))
  | "type_mismatch" =>
    let expected ← (← value.member? "expected").as? DataType.decoder
    let found ← (← value.member? "found").as? DataType.decoder
    some (.envelope (.typeMismatch expected found))
  | "serialization" =>
    some (.envelope (.serialization (.ofText (← (← value.member? "text").text?))))
  | _ => none

namespace FaultScript

/-- The failure of a call, if it is to fail. -/
def failureOfJson? (value : Json) : Option (Option RepositoryError) :=
  value.optional? "error" RepositoryError.ofJson?

/-- What happens to a commit. -/
def commitOfJson? (value : Json) : Option CommitFault := do
  let delay ← value.optional? "delay_ms" Json.nat?
  some ⟨delay.map (· * 1000000), ← failureOfJson? value⟩

/-- What happens to a read. Inserted values that are no items of a listing are left out of it. -/
def readOfJson? (value : Json) : Option ReadFault := do
  let inserted ← value.listMember? "insert" some
  let before ← value.optional? "after" Json.nat?
  let resumes ← value.optional? "rest" Json.bool?
  some {
    inserted := fun listing => inserted.filterMap (Json.as? listing.itemDecoder)
    failure := ← failureOfJson? value
    before := before.getD 0
    resumes := resumes.getD false }

/-- A script that nothing has come to yet. -/
def ofJson? (value : Json) : Option FaultScript := do
  some {
    commits := ← value.listMember? "commits" commitOfJson?
    reads := ← value.listMember? "reads" readOfJson?
    purges := ← value.listMember? "purges" failureOfJson?
    disposals := ← value.listMember? "disposes" failureOfJson?
    arrivals := [] }

end FaultScript

end LeaseLog
