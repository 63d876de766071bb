import LeaseLog.Instant.Text
import LeaseLog.Source

/-!
# JSON forms of the values of the log

For every value a form and a decoder. Records are objects whose members stand in a fixed order; the
four lists of a message may be left out when they are empty.
-/

namespace LeaseLog

open Decoder

/-- A list of values as an array. -/
def Json.ofList {α : Type} (write : α → Json) (values : List α) : Json :=
  .array (values.map write)

/-- Text that may be absent. -/
def Json.ofText? : Option String → Json := Json.ofOption .string

namespace Ident

/-- An identifier is its written form. -/
def toJson (id : Ident) : Json := .string id.toText

def decoder : Decoder Ident := Decoder.text.filterMap ofText?

end Ident

namespace Version

/-- A version is an integer. -/
def toJson (version : Version) : Json := .nat version.toNat

def decoder : Decoder Version := (natBelow (Nat.pow 2 64)).filterMap ofNat?

end Version

namespace Instant

/-- An instant is its written form. -/
def toJson (instant : Instant) : Json := .string instant.toText

def decoder : Decoder Instant := Decoder.text.filterMap ofText?

end Instant

namespace Pointer

def toJson (pointer : Pointer) : Json :=
  .object [("id", pointer.id.toJson), ("version", pointer.version.toJson)]

def decoder : Decoder Pointer :=
  (record [required "id" Ident.decoder, required "version" Version.decoder]).map
    fun (id, version, _) => ⟨id, version⟩

end Pointer

namespace Lease

def toJson (lease : Lease) : Json :=
  .object [("scope", .string lease.scope), ("label", .string lease.label),
    ("value", .string lease.value)]

def decoder : Decoder Lease :=
  (record [required "scope" text, required "label" text, required "value" text]).map
    fun (scope, label, value, _) => ⟨scope, label, value⟩

end Lease

namespace Tag

def toJson (tag : Tag) : Json :=
  .object [("label", .string tag.label), ("value", .string tag.value)]

def decoder : Decoder Tag :=
  (record [required "label" text, required "value" text]).map
    fun (label, value, _) => ⟨label, value⟩

end Tag

namespace DataType

def toJson (dataType : DataType) : Json :=
  .object [("platform", .string dataType.platform), ("name", .string dataType.name)]

def decoder : Decoder DataType :=
  (record [required "platform" text, required "name" text]).map
    fun (platform, name, _) => ⟨platform, name⟩

end DataType

namespace Envelope

def toJson (envelope : Envelope) : Json :=
  .object [("data_type", envelope.dataType.toJson), ("data", envelope.data)]

def decoder : Decoder Envelope :=
  (record [required "data_type" DataType.decoder, required "data" payload]).map
    fun (dataType, data, _) => ⟨dataType, data⟩

end Envelope

namespace Message

def toJson (message : Message) : Json :=
  .object [("state", message.state.toJson), ("delta", message.delta.toJson),
    ("add_leases", .ofList Lease.toJson message.addLeases),
    ("remove_leases", .ofList Lease.toJson message.removeLeases),
    ("add_tags", .ofList Tag.toJson message.addTags),
    ("remove_tags", .ofList Tag.toJson message.removeTags)]

def decoder : Decoder Message :=
  (record [required "state" Pointer.decoder, required "delta" Envelope.decoder,
      withDefault "add_leases" (list Lease.decoder) [],
      withDefault "remove_leases" (list Lease.decoder) [],
      withDefault "add_tags" (list Tag.decoder) [],
      withDefault "remove_tags" (list Tag.decoder) []]).map
    fun (state, delta, addLeases, removeLeases, addTags, removeTags, _) =>
      ⟨state, delta, addLeases, removeLeases, addTags, removeTags⟩

end Message

namespace Source

def toJson (source : Source) : Json :=
  .object [("id", source.id.toJson), ("timestamp", source.timestamp.toJson),
    ("agent", source.agent.toJson), ("messages", .ofList Message.toJson source.messages)]

def decoder : Decoder Source :=
  (record [required "id" Ident.decoder, required "timestamp" Instant.decoder,
      required "agent" Envelope.decoder, required "messages" (list Message.decoder)]).map
    fun (id, timestamp, agent, messages, _) => ⟨id, timestamp, agent, messages⟩

end Source

namespace DeltaRecord

def toJson (record : DeltaRecord) : Json :=
  .object [("source_id", record.sourceId.toJson), ("state", record.state.toJson),
    ("delta", record.delta.toJson)]

def decoder : Decoder DeltaRecord :=
  (record [required "source_id" Ident.decoder, required "state" Pointer.decoder,
      required "delta" Envelope.decoder]).map
    fun (sourceId, state, delta, _) => ⟨sourceId, state, delta⟩

end DeltaRecord

namespace LeaseRecord

def toJson (record : LeaseRecord) : Json :=
  .object [("lease", record.lease.toJson), ("state", record.state.toJson)]

def decoder : Decoder LeaseRecord :=
  (record [required "lease" Lease.decoder, required "state" Pointer.decoder]).map
    fun (lease, state, _) => ⟨lease, state⟩

end LeaseRecord

namespace TagRecord

def toJson (record : TagRecord) : Json :=
  .object [("tag", record.tag.toJson), ("state", record.state.toJson)]

def decoder : Decoder TagRecord :=
  (record [required "tag" Tag.decoder, required "state" Pointer.decoder]).map
    fun (tag, state, _) => ⟨tag, state⟩

end TagRecord

end LeaseLog
