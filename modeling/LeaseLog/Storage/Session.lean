import LeaseLog.Storage.Basic

/-!
# Sessions

A session gives access to the log of one engine. What it does depends on its options and on whether
it was disposed of; all sessions of an engine see the same log.
-/

namespace LeaseLog

namespace Session

/-- A session that was disposed of refuses everything. -/
def ensureOpen (session : Session) : Except RepositoryError Unit :=
  if session.closed then .error .closed else .ok ()

/-- A session that only reads refuses writes. -/
def ensureWritable (session : Session) : Except RepositoryError Unit :=
  if session.closed then .error .closed
  else if session.options.readOnly then .error .readOnly
  else .ok ()

end Session

namespace LogState

/-- Commits a source: whether it is accepted, and the log after it. -/
def commit (state : LogState) (source : Source) : Bool × LogState :=
  match state.apply source Invariant.standard with
  | .ok state => (true, state)
  | .error _ => (false, state)

/-- The log without the sources of an identifier, as if they had never been committed. -/
def purge (state : LogState) (id : Ident) : Except ReplayError LogState :=
  if state.sources.any fun source => source.id = id then
    replay (state.sources.filter fun source => source.id ≠ id) Invariant.standard
  else .ok state

end LogState

namespace Storage

/-- Commits a source through a session. A rejected source is no error. -/
def commitSession (storage : Storage) (index : Nat) (source : Source) (token : Token) :
    Except RepositoryError Bool × Storage :=
  match storage.sessions[index]? with
  | none => (.error .closed, storage)
  | some session =>
    match session.ensureWritable with
    | .error cause => (.error cause, storage)
    | .ok () =>
      let storage := storage.refresh
      if token.isCancelled storage.now && !storage.logFirst then (.error .cancelled, storage)
      else
        let (state, storage) := storage.readLog session.engine
        let (accepted, state) := state.commit source
        (.ok accepted, storage.setState session.engine state)

/-- Removes a source through a session. The log must be valid without it. -/
def purgeSession (storage : Storage) (index : Nat) (id : Ident) :
    Except RepositoryError Unit × Storage :=
  match storage.sessions[index]? with
  | none => (.error .closed, storage)
  | some session =>
    match session.ensureWritable with
    | .error cause => (.error cause, storage)
    | .ok () =>
      let (state, storage) := storage.readLog session.engine
      match state.purge id with
      | .error cause => (.error (.backend cause.message), storage)
      | .ok state => (.ok (), storage.setState session.engine state)

/-- Disposes of a session. -/
def disposeSession (storage : Storage) (index : Nat) : Storage :=
  { storage with
    sessions := storage.sessions.modify index fun session => { session with closed := true } }

end Storage

end LeaseLog
