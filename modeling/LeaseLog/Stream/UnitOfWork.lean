import LeaseLog.Agent
import LeaseLog.Stream.Basic

/-!
# Units of work

A unit of work looks streams up, gathers messages for them, and commits what it gathered as one
source. An operation that does not succeed leaves the unit as it was.

A keyed message is looked for before it is staged. That look and the commit are two steps; of two
writers that race, the engine refuses the later one, because the first one holds the lease or has
moved the stream on.

What a unit of work does with an answer is the same whatever gave it, so the calls that ask for one
are stated over any backend first.
-/

namespace LeaseLog

/-- Streams that were looked up through a repository, and messages that wait for a commit. -/
structure UnitOfWork where
  repository : Repository
  signature : Signature
  /-- The streams in the order in which they were looked up; a handle is a position in it. -/
  streams : List Stream
  /-- The handle of each key. -/
  handles : Std.ExtTreeMap String Nat
  /-- The messages for the next commit, in order. -/
  staged : List Message

namespace UnitOfWork

/-- A unit of work without streams. -/
def start (repository : Repository) (signature : Signature) : UnitOfWork :=
  ⟨repository, signature, [], ∅, []⟩

/-- The handle of a key that was looked up. -/
def handle? (unit : UnitOfWork) (key : String) : Option Nat := unit.handles[key]?

/-- The stream at a position; `none` for a position that was not given out. -/
def streamAt? (unit : UnitOfWork) (handle : Nat) : Option Stream := unit.streams[handle]?

/-- The stream of a key that was looked up. -/
def stream? (unit : UnitOfWork) (key : String) : Option Stream :=
  (unit.handle? key).bind unit.streamAt?

/-! ## Looking streams up -/

/-- A key may be looked up once. -/
def ensureUnknown (unit : UnitOfWork) (key : String) : Except StreamError Unit :=
  match unit.handle? key with
  | some _ => .error (.alreadyLoaded key)
  | none => .ok ()

/-- The handle and the stream of a key that was looked up. -/
def known (unit : UnitOfWork) (key : String) : Except StreamError (Nat × Stream) :=
  match unit.handle? key with
  | none => .error (.notLoaded key)
  | some handle =>
    match unit.streamAt? handle with
    | none => .error (.notLoaded key)
    | some stream => .ok (handle, stream)

/-- Takes a stream in and gives out its handle. -/
def track (unit : UnitOfWork) (stream : Stream) : Nat × UnitOfWork :=
  let handle := unit.streams.length
  (handle, { unit with
    streams := unit.streams ++ [stream]
    handles := unit.handles.insert stream.key handle })

/-- Starts a stream without looking for an existing one. -/
def create (unit : UnitOfWork) (key : String) (fresh : Ident) :
    Except StreamError Nat × UnitOfWork :=
  match unit.ensureUnknown key with
  | .error cause => (.error cause, unit)
  | .ok () =>
    let (handle, unit) := unit.track (.unwritten key fresh)
    (.ok handle, unit)

/-- Looks a stream up; if nothing holds its lease, it is what is given for that case. -/
def resolveOn {σ : Type} (backend : Backend σ) (unit : UnitOfWork) (key : String)
    (absent : Except StreamError Stream) (token : Token) (state : σ) :
    Except StreamError Nat × UnitOfWork × σ :=
  match unit.ensureUnknown key with
  | .error cause => (.error cause, unit, state)
  | .ok () =>
    match backend.find (streamLease key) token state with
    | (.error cause, state) => (.error (.repository cause), unit, state)
    | (.ok pointer?, state) =>
      match pointer?.elim absent fun pointer => .ok (.found key pointer) with
      | .error cause => (.error cause, unit, state)
      | .ok stream =>
        let (handle, unit) := unit.track stream
        (.ok handle, unit, state)

/-- Looks a stream up, and starts it if nothing holds its lease. -/
def loadOrCreate (unit : UnitOfWork) (key : String) (fresh : Ident) (token : Token)
    (storage : Storage) : Except StreamError Nat × UnitOfWork × Storage :=
  unit.resolveOn unit.repository.backend key (.ok (.unwritten key fresh)) token storage

/-- Looks a stream up that has to exist. -/
def load (unit : UnitOfWork) (key : String) (token : Token) (storage : Storage) :
    Except StreamError Nat × UnitOfWork × Storage :=
  unit.resolveOn unit.repository.backend key (.error (.unknownKey key)) token storage

/-! ## Gathering messages -/

/-- Whether a message that waits takes a lease. -/
def isStaged (unit : UnitOfWork) (lease : Lease) : Bool :=
  unit.staged.any fun message => decide (lease ∈ message.addLeases)

/-- Gathers the next message of a stream. -/
def stage (unit : UnitOfWork) (handle : Nat) (stream : Stream) (delta : Envelope)
    (keyLease : Option Lease) (extras : Extras) : Except StreamError Pointer × UnitOfWork :=
  match stream.version.next with
  | .error cause => (.error (.version cause), unit)
  | .ok version =>
    let stream := { stream with version }
    (.ok stream.pointer, { unit with
      streams := unit.streams.set handle stream
      staged := unit.staged ++ [.ofStream stream.key stream.pointer delta keyLease extras] })

/-- Gathers a delta as the next message of a stream. -/
def append (unit : UnitOfWork) (key : String) (delta : Delta) :
    Except StreamError Pointer × UnitOfWork :=
  match unit.known key with
  | .error cause => (.error cause, unit)
  | .ok (handle, stream) =>
    match Envelope.pack delta with
    | .error cause => (.error (.envelope cause), unit)
    | .ok envelope => unit.stage handle stream envelope none .none

/-- The lease that the message key of a delta asks for: `none` if the stream has such a message
already, or if one waits. -/
def claimKeyOn {σ : Type} (backend : Backend σ) (unit : UnitOfWork) (key : String) (delta : Delta)
    (token : Token) (state : σ) : Except RepositoryError (Option (Option Lease)) × σ :=
  match delta.messageKey with
  | none => (.ok (some none), state)
  | some messageKey =>
    let lease := messageLease key messageKey
    if unit.isStaged lease then (.ok none, state)
    else
      match backend.find lease token state with
      | (.error cause, state) => (.error cause, state)
      | (.ok (some _), state) => (.ok none, state)
      | (.ok none, state) => (.ok (some (some lease)), state)

/-- Gathers a delta with further leases and tags, unless the stream has its message key already.
Says whether it did. -/
def appendWithOn {σ : Type} (backend : Backend σ) (unit : UnitOfWork) (key : String) (delta : Delta)
    (extras : Extras) (token : Token) (state : σ) : Except StreamError Bool × UnitOfWork × σ :=
  match unit.known key with
  | .error cause => (.error cause, unit, state)
  | .ok (handle, stream) =>
    match Envelope.pack delta with
    | .error cause => (.error (.envelope cause), unit, state)
    | .ok envelope =>
      match unit.claimKeyOn backend key delta token state with
      | (.error cause, state) => (.error (.repository cause), unit, state)
      | (.ok none, state) => (.ok false, unit, state)
      | (.ok (some keyLease), state) =>
        let (result, unit) := unit.stage handle stream envelope keyLease extras
        (result.map fun _ => true, unit, state)

/-- Gathers a delta with further leases and tags; the repository is asked for its message key. -/
def appendWith (unit : UnitOfWork) (key : String) (delta : Delta) (extras : Extras)
    (token : Token) (storage : Storage) : Except StreamError Bool × UnitOfWork × Storage :=
  unit.appendWithOn unit.repository.backend key delta extras token storage

/-- Gathers a delta, unless the stream has its message key already. Says whether it did. -/
def appendKeyed (unit : UnitOfWork) (key : String) (delta : Delta) (token : Token)
    (storage : Storage) : Except StreamError Bool × UnitOfWork × Storage :=
  unit.appendWith key delta .none token storage

/-! ## Committing -/

/-- Commits what was gathered as one source. It stays gathered unless the source is accepted. -/
def commitOn {σ : Type} (backend : Backend σ) (unit : UnitOfWork) (stamp : Stamp) (token : Token)
    (state : σ) : Except StreamError Bool × UnitOfWork × σ :=
  if unit.staged.isEmpty then (.ok true, unit, state)
  else
    match unit.signature with
    | .error cause => (.error (.envelope cause), unit, state)
    | .ok agent =>
      match backend.commit (.ofStamp stamp agent unit.staged) token state with
      | (.error cause, state) => (.error (.repository cause), unit, state)
      | (.ok false, state) => (.ok false, unit, state)
      | (.ok true, state) => (.ok true, { unit with staged := [] }, state)

/-- Commits what was gathered to the repository. -/
def commit (unit : UnitOfWork) (stamp : Stamp) (token : Token) (storage : Storage) :
    Except StreamError Bool × UnitOfWork × Storage :=
  unit.commitOn unit.repository.backend stamp token storage

/-- Gives the repository back; what was gathered is dropped. -/
def dispose (unit : UnitOfWork) (storage : Storage) : Except StreamError Unit × Storage :=
  match unit.repository.dispose storage with
  | (.error cause, storage) => (.error (.repository cause), storage)
  | (.ok (), storage) => (.ok (), storage)

end UnitOfWork

end LeaseLog
