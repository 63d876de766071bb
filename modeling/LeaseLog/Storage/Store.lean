import LeaseLog.Storage.Cursor

/-!
# Stores

A store is a session, or a session whose calls fail as a script says: a call is held up, fails
before it reaches the session, or, if it is a listing, is disturbed on its way back.
-/

namespace LeaseLog

/-- A session, or a session whose calls fail as a script says. -/
inductive Store
  | plain (session : Nat)
  | scripted (script session : Nat)
deriving DecidableEq, Repr

namespace Store

/-- The session behind a store. -/
def sessionIndex : Store → Nat
  | .plain session => session
  | .scripted _ session => session

/-- Requests a listing from a session. -/
def scan (storage : Storage) (session : Nat) (listing : Listing) (query : Query) : Scan listing :=
  match storage.sessions[session]? with
  | some found => .requested found.engine (.of query) found.ensureOpen
  | none => .requested 0 (.of query) (.error .closed)

/-- Takes what a script says about the next call of a sort. -/
def nextFault {α : Type} : List α → Option α × List α
  | [] => (none, [])
  | fault :: faults => (some fault, faults)

/-- Requests a listing. -/
def list (store : Store) (listing : Listing) (query : Query) (storage : Storage) :
    Cursor listing × Storage :=
  match store with
  | .plain session => (.plain (scan storage session listing query), storage)
  | .scripted script session =>
    let inner := scan storage session listing query
    match storage.scripts[script]? with
    | none => (.plain inner, storage)
    | some faults =>
      let (fault, reads) := nextFault faults.reads
      let storage :=
        { storage with scripts := storage.scripts.set script { faults with reads } }
      match fault with
      | none => (.plain inner, storage)
      | some fault =>
        (.faulty (fault.inserted listing) fault.failure fault.before fault.resumes inner, storage)

/-- Commits a source. A scripted delay is cut short, as cancelled, when the watched token is. -/
def commit (store : Store) (source : Source) (token watched : Token)
    (storage : Storage) : Except RepositoryError Bool × Storage :=
  match store with
  | .plain session => storage.commitSession session source token
  | .scripted script session =>
    match storage.scripts[script]? with
    | none => storage.commitSession session source token
    | some faults =>
      let (fault, commits) := nextFault faults.commits
      let arrivals := storage.clock.time :: faults.arrivals
      let storage :=
        { storage with scripts := storage.scripts.set script { faults with commits, arrivals } }
      match fault with
      | none => storage.commitSession session source token
      | some fault =>
        let (reached, storage) := match fault.delay with
          | some delay => storage.wait delay watched
          | none => (true, storage)
        match reached with
        | false => (.error .cancelled, storage)
        | true =>
          match fault.failure with
          | some cause => (.error cause, storage)
          | none => storage.commitSession session source token

/-- Removes a source. -/
def purge (store : Store) (id : Ident) (storage : Storage) :
    Except RepositoryError Unit × Storage :=
  match store with
  | .plain session => storage.purgeSession session id
  | .scripted script session =>
    match storage.scripts[script]? with
    | none => storage.purgeSession session id
    | some faults =>
      let (fault, purges) := nextFault faults.purges
      let storage :=
        { storage with scripts := storage.scripts.set script { faults with purges } }
      match fault with
      | some (some cause) => (.error cause, storage)
      | some none | none => storage.purgeSession session id

/-- Disposes of the session. -/
def dispose (store : Store) (storage : Storage) : Except RepositoryError Unit × Storage :=
  match store with
  | .plain session => (.ok (), storage.disposeSession session)
  | .scripted script session =>
    match storage.scripts[script]? with
    | none => (.ok (), storage.disposeSession session)
    | some faults =>
      let (fault, disposals) := nextFault faults.disposals
      let storage :=
        { storage with scripts := storage.scripts.set script { faults with disposals } }
      match fault with
      | some (some cause) => (.error cause, storage)
      | some none | none => (.ok (), storage.disposeSession session)

end Store

end LeaseLog
