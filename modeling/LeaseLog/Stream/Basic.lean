import LeaseLog.Repository

/-!
# Streams

A stream is an ordered sequence of messages of one entity. It has no record of its own: every
message of a stream takes the lease that the stream's key derives, and whoever holds that lease is
the stream. A message with a key of its own takes a second lease, so that a stream has it at most
once.
-/

namespace LeaseLog

/-- The lease of a stream. -/
def streamLease (key : String) : Lease := ⟨"stream", "key", key⟩

/-- The lease of a keyed message of a stream. -/
def messageLease (key messageKey : String) : Lease := ⟨"stream-message", key, messageKey⟩

/-- A stream as a unit of work knows it. -/
structure Stream where
  key : String
  id : Ident
  /-- Nothing of the stream was found when it was looked up. -/
  isNew : Bool
  /-- The version of the latest committed or staged message. -/
  version : Version
deriving DecidableEq, Repr, Inhabited

namespace Stream

/-- A stream that has no message yet. -/
def unwritten (key : String) (id : Ident) : Stream := ⟨key, id, true, .zero⟩

/-- A stream that was found at a state. -/
def found (key : String) (pointer : Pointer) : Stream := ⟨key, pointer.id, false, pointer.version⟩

/-- The latest state of a stream. -/
def pointer (stream : Stream) : Pointer := ⟨stream.id, stream.version⟩

end Stream

/-- Why an operation on streams fails. -/
inductive StreamError
  | alreadyLoaded (key : String)
  | notLoaded (key : String)
  | unknownKey (key : String)
  | repository (cause : RepositoryError)
  | envelope (cause : EnvelopeError)
  | version (cause : VersionError)
  | config (cause : ConfigError)
deriving DecidableEq, Repr

/-- The wording of a stream error. -/
def StreamError.message : StreamError → String
  | .alreadyLoaded key => "stream `" ++ key ++ "` is already loaded"
  | .notLoaded key => "stream `" ++ key ++ "` has not been loaded"
  | .unknownKey key => "unknown stream key `" ++ key ++ "`"
  | .repository cause => "repository error: " ++ cause.message
  | .envelope cause => "envelope error: " ++ cause.message
  | .version cause => "version error: " ++ cause.message
  | .config cause => "config error: " ++ cause.message

/-- Leases and tags that a message touches besides those of its stream. -/
structure Extras where
  addLeases : List Lease
  removeLeases : List Lease
  addTags : List Tag
  removeTags : List Tag
deriving DecidableEq, Repr

/-- No further leases and tags. -/
def Extras.none : Extras := ⟨[], [], [], []⟩

/-- The message of a stream that writes a state: it takes the lease of the stream, the lease of its
message key if it has one, and the extra leases. -/
def Message.ofStream (key : String) (state : Pointer) (delta : Envelope)
    (keyLease : Option Lease) (extras : Extras) : Message :=
  let message := extras.removeLeases.foldl releaseLease (.plain state delta)
  let message := message.takeLease (streamLease key)
  let message := keyLease.toList.foldl takeLease message
  let message := extras.addLeases.foldl takeLease message
  let message := extras.removeTags.foldl dropTag message
  extras.addTags.foldl attachTag message

end LeaseLog
