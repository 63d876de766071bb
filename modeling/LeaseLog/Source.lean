import LeaseLog.Instant.Basic
import LeaseLog.Message

/-!
# Sources

A source is the unit of commit: all its messages apply, in order, or none does. Listings report
records that pair a delta, a lease or a tag with a state.
-/

namespace LeaseLog

/-- Messages that are committed together, with who committed them and when. -/
structure Source where
  id : Ident
  timestamp : Instant
  agent : Envelope
  messages : List Message
deriving DecidableEq, Repr, Inhabited

/-- What makes a source unlike any other one: a fresh identifier and the time. -/
structure Stamp where
  id : Ident
  timestamp : Instant
deriving DecidableEq, Repr, Inhabited

/-- The source of messages under a stamp. -/
def Source.ofStamp (stamp : Stamp) (agent : Envelope) (messages : List Message) : Source :=
  ⟨stamp.id, stamp.timestamp, agent, messages⟩

/-- A committed delta and the state that it wrote. -/
structure DeltaRecord where
  sourceId : Ident
  state : Pointer
  delta : Envelope
deriving DecidableEq, Repr

/-- A live lease and the current state of its holder. -/
structure LeaseRecord where
  lease : Lease
  state : Pointer
deriving DecidableEq, Repr

def LeaseRecord.toText (record : LeaseRecord) : String :=
  record.lease.toText ++ " -> " ++ record.state.toText

/-- A live tag and the current state of the entity that carries it. -/
structure TagRecord where
  tag : Tag
  state : Pointer
deriving DecidableEq, Repr

def TagRecord.toText (record : TagRecord) : String :=
  record.tag.toText ++ " -> " ++ record.state.toText

end LeaseLog
