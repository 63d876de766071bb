import LeaseLog.Proofs.Edits
import LeaseLog.Stream.Basic

/-!
# Messages of streams

The leases that a message of a stream takes and releases, and the tags that it attaches and drops.

Results:
1. `ofStream_eq_ofEdits`: a message of a stream is made by edits;
   `mem_addLeases_ofStream`, `mem_removeLeases_ofStream`: it takes the lease of the stream, the lease
   of its key and the extra ones, and releases what the extras say;
   `mem_addTags_ofStream`, `mem_removeTags_ofStream`: its tags are those of the extras.
2. `takes_append`: takers of a lease are counted part by part.
-/

namespace LeaseLog

/-! ## Definitions -/

/-- The extras neither take nor release a lease of a scope. -/
def Extras.Avoids (scope : String) (extras : Extras) : Prop :=
  (∀ lease ∈ extras.addLeases, lease.scope ≠ scope) ∧
    ∀ lease ∈ extras.removeLeases, lease.scope ≠ scope

/-- How many messages take a lease. -/
def takes (lease : Lease) (messages : List Message) : Nat :=
  messages.countP fun message => decide (lease ∈ message.addLeases)

/-- The edits that make a message of a stream. -/
def streamEdits (key : String) (keyLease : Option Lease) (extras : Extras) : List Message.Edit :=
  extras.removeLeases.map .release ++ .take (streamLease key) :: keyLease.toList.map .take ++
    extras.addLeases.map .take ++ extras.removeTags.map .drop ++ extras.addTags.map .attach

theorem avoids_none {scope : String} : Extras.none.Avoids scope := by
  simp [Extras.Avoids, Extras.none]

/-! ## 1. What a message of a stream does -/

/-- A message of a stream is made by edits. -/
theorem ofStream_eq_ofEdits (key : String) (state : Pointer) (delta : Envelope)
    (keyLease : Option Lease) (extras : Extras) :
    Message.ofStream key state delta keyLease extras =
      .ofEdits state delta (streamEdits key keyLease extras) := by
  simp only [Message.ofEdits, streamEdits, List.foldl_append, List.foldl_cons, List.foldl_map]
  rfl

section

variable {key : String} {state : Pointer} {delta : Envelope} {keyLease : Option Lease}
  {extras : Extras} {lease : Lease} {tag : Tag}

@[simp] theorem state_ofStream :
    (Message.ofStream key state delta keyLease extras).state = state := by
  rw [ofStream_eq_ofEdits]
  exact (collapsed_ofEdits state delta _).state

/-- A message of a stream takes the lease of the stream, the lease of its key, and the extra
ones. -/
theorem mem_addLeases_ofStream :
    lease ∈ (Message.ofStream key state delta keyLease extras).addLeases ↔
      lease = streamLease key ∨ keyLease = some lease ∨ lease ∈ extras.addLeases := by
  rw [ofStream_eq_ofEdits, mem_addLeases_ofEdits]
  simp [streamEdits]

/-- A message of a stream releases what the extras release. -/
theorem mem_removeLeases_ofStream :
    lease ∈ (Message.ofStream key state delta keyLease extras).removeLeases ↔
      lease ∈ extras.removeLeases := by
  rw [ofStream_eq_ofEdits, mem_removeLeases_ofEdits]
  simp [streamEdits]

theorem mem_addTags_ofStream :
    tag ∈ (Message.ofStream key state delta keyLease extras).addTags ↔ tag ∈ extras.addTags := by
  rw [ofStream_eq_ofEdits, mem_addTags_ofEdits]
  simp [streamEdits]

theorem mem_removeTags_ofStream :
    tag ∈ (Message.ofStream key state delta keyLease extras).removeTags ↔
      tag ∈ extras.removeTags := by
  rw [ofStream_eq_ofEdits, mem_removeTags_ofEdits]
  simp [streamEdits]

end

/-! ## 2. Counting the takers of a lease -/

section

variable {lease : Lease} {message : Message} {messages others : List Message}

theorem takes_append : takes lease (messages ++ others) = takes lease messages + takes lease others :=
  List.countP_append

theorem takes_eq_zero :
    takes lease messages = 0 ↔ ∀ message ∈ messages, lease ∉ message.addLeases := by
  simp [takes, List.countP_eq_zero]

theorem takes_singleton_le : takes lease [message] ≤ 1 := List.countP_le_length

end

end LeaseLog
