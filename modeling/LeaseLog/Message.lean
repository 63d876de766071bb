import LeaseLog.Envelope
import LeaseLog.Lease
import LeaseLog.Pointer

/-!
# Messages

A message writes one state of one entity. It may release and take leases, and drop and attach
tags; what it releases goes before what it takes.
-/

namespace LeaseLog

/-- One delta of one entity. -/
structure Message where
  /-- The state that the message writes. -/
  state : Pointer
  delta : Envelope
  addLeases : List Lease
  removeLeases : List Lease
  addTags : List Tag
  removeTags : List Tag
deriving DecidableEq, Repr, Inhabited

/-- Appends an item to a list that does not have it yet. -/
def insertUnique {α : Type} [DecidableEq α] (items : List α) (item : α) : List α :=
  if item ∈ items then items else items ++ [item]

namespace Message

/-- The message that writes a state and touches no lease and no tag. -/
def plain (state : Pointer) (delta : Envelope) : Message := ⟨state, delta, [], [], [], []⟩

/-- Takes a lease too. -/
def takeLease (message : Message) (lease : Lease) : Message :=
  { message with addLeases := insertUnique message.addLeases lease }

/-- Releases a lease too. -/
def releaseLease (message : Message) (lease : Lease) : Message :=
  { message with removeLeases := insertUnique message.removeLeases lease }

/-- Attaches a tag too. -/
def attachTag (message : Message) (tag : Tag) : Message :=
  { message with addTags := insertUnique message.addTags tag }

/-- Drops a tag too. -/
def dropTag (message : Message) (tag : Tag) : Message :=
  { message with removeTags := insertUnique message.removeTags tag }

end Message

end LeaseLog
