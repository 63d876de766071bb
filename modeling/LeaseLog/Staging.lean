import LeaseLog.Storage.Store

/-!
# Staging

A staging layer remembers what was committed through it, so that a test can take it back. Commits
are handed out as tickets: positions in a ledger whose slots are emptied and never removed.
-/

namespace LeaseLog

namespace Storage

/-- The ledger of a staging layer. -/
def ledger (storage : Storage) (index : Nat) : List (Option Ident) :=
  (storage.ledgers[index]?).getD []

/-- Replaces the ledger of a staging layer. -/
def setLedger (storage : Storage) (index : Nat) (slots : List (Option Ident)) : Storage :=
  { storage with ledgers := storage.ledgers.set index slots }

end Storage

/-- A store whose commits are remembered in a ledger. -/
structure Staging where
  ledger : Nat
  store : Store
deriving DecidableEq, Repr

namespace Staging

/-- Commits a source and remembers it under a ticket; a rejected source gets none. -/
def commitTracked (staging : Staging) (source : Source) (token watched : Token)
    (storage : Storage) : Except RepositoryError (Option Nat) × Storage :=
  match staging.store.commit source token watched storage with
  | (.error cause, storage) => (.error cause, storage)
  | (.ok false, storage) => (.ok none, storage)
  | (.ok true, storage) =>
    let slots := storage.ledger staging.ledger
    (.ok (some slots.length), storage.setLedger staging.ledger (slots ++ [some source.id]))

/-- The slots of a ledger that are not empty, with their tickets. -/
def liveSlots (first : Nat) : List (Option Ident) → List (Nat × Ident)
  | [] => []
  | none :: slots => liveSlots (first + 1) slots
  | some id :: slots => (first, id) :: liveSlots (first + 1) slots

/-- The tickets of the commits that a rollback would undo. -/
def tickets (staging : Staging) (storage : Storage) : List Nat :=
  (liveSlots 0 (storage.ledger staging.ledger)).map Prod.fst

/-- The source of a ticket, as long as a rollback would undo it. -/
def sourceOf (staging : Staging) (ticket : Nat) (storage : Storage) : Option Ident :=
  ((storage.ledger staging.ledger)[ticket]?).join

/-- Empties the slot of a ticket. -/
def clear (staging : Staging) (ticket : Nat) (storage : Storage) : Storage :=
  storage.setLedger staging.ledger ((storage.ledger staging.ledger).set ticket none)

/-- Keeps the source of a ticket when the rest is rolled back. -/
def release (staging : Staging) (ticket : Nat) (storage : Storage) : Option Ident × Storage :=
  (staging.sourceOf ticket storage, staging.clear ticket storage)

/-- Whether a rollback is called off after some purges: by its token, or because it was told to have
patience for that many. -/
def isCalledOff (token : Token) (patience : Option Nat) (purged : Nat) (storage : Storage) : Bool :=
  token.isCancelled storage.now || patience.any fun limit => limit ≤ purged

/-- Purges sources one after another and counts them. Before each purge and after the last one it
may be called off. -/
def purgeAll (staging : Staging) (token : Token) (patience : Option Nat) :
    (purged : Nat) → List (Nat × Ident) → Storage → Except RepositoryError Nat × Storage
  | purged, [], storage =>
    if isCalledOff token patience purged storage then (.error .cancelled, storage)
    else (.ok purged, storage)
  | purged, (ticket, id) :: slots, storage =>
    if isCalledOff token patience purged storage then (.error .cancelled, storage)
    else
      match staging.store.purge id storage with
      | (.error cause, storage) => (.error cause, storage)
      | (.ok (), storage) =>
        purgeAll staging token patience (purged + 1) slots (staging.clear ticket storage)

/-- Purges every source that has a ticket, the newest one first, and counts them. Somebody else may
call it off after a number of purges. -/
def rollback (staging : Staging) (token : Token) (patience : Option Nat) (storage : Storage) :
    Except RepositoryError Nat × Storage :=
  purgeAll staging token patience 0 (liveSlots 0 (storage.ledger staging.ledger)).reverse storage

end Staging

end LeaseLog
