import LeaseLog.RetryPolicy
import LeaseLog.Staging

/-!
# Repositories

A repository is a store behind any number of layers. A logging layer reports failures of the
infrastructure as rejected commits and early ends, a retrying layer tries commits again that failed
for a passing reason, and a staging layer remembers what was committed through it.
-/

namespace LeaseLog

/-- A store behind layers. -/
inductive Repository
  | bare (store : Store)
  | logging (inner : Repository)
  | retrying (policy : RetryPolicy) (inner : Repository)
  | staging (ledger : Nat) (store : Store)
deriving DecidableEq, Repr

/-! ## Retrying -/

namespace RetryPolicy

/-- Makes attempts until one does not fail for a passing reason or no retry is left, and lists the
waits in between. A wait is cut short when the token is cancelled. -/
def attempts (policy : RetryPolicy) (token : Token)
    (attempt : Storage → Except RepositoryError Bool × Storage) :
    (retries wait : Nat) → Storage → List Nat × Except RepositoryError Bool × Storage
  | 0, _, storage => ([], attempt storage)
  | retries + 1, wait, storage =>
    match attempt storage with
    | (.error cause, storage) =>
      if cause.isTransient then
        match storage.wait wait token with
        | (false, storage) => ([wait], .error .cancelled, storage)
        | (true, storage) =>
          (attempts policy token attempt retries (policy.nextWait wait) storage).map (wait :: ·) id
      else ([], .error cause, storage)
    | done => ([], done)

/-- Makes attempts as the policy says, or none if the token is cancelled already or as soon as one
gives way. Lists the waits in between. -/
def trace (policy : RetryPolicy) (token : Token)
    (attempt : Storage → Except RepositoryError Bool × Storage) (storage : Storage) :
    List Nat × Except RepositoryError Bool × Storage :=
  if token.isCancelled storage.now then ([], .error .cancelled, storage)
  else
    let storage := storage.refresh
    if token.isCancelled storage.now then ([], .error .cancelled, storage)
    else policy.attempts token attempt policy.retries policy.initialBackoff.nanos storage

/-- What comes of attempts that are made as the policy says. -/
def run (policy : RetryPolicy) (token : Token)
    (attempt : Storage → Except RepositoryError Bool × Storage) (storage : Storage) :
    Except RepositoryError Bool × Storage :=
  (policy.trace token attempt storage).2

end RetryPolicy

/-! ## Layers -/

namespace Repository

/-- The store behind all layers. -/
def base : Repository → Store
  | .bare store => store
  | .logging inner => inner.base
  | .retrying _ inner => inner.base
  | .staging _ store => store

/-- The repository that the outermost layer, or a script of failures, is put around. -/
def inner? : Repository → Option Repository
  | .bare (.plain _) => none
  | .bare (.scripted _ session) => some (.bare (.plain session))
  | .logging inner => some inner
  | .retrying _ inner => some inner
  | .staging _ store => some (.bare store)

/-- Requests a listing. -/
def list (listing : Listing) (query : Query) (storage : Storage) :
    Repository → Cursor listing × Storage
  | .bare store => store.list listing query storage
  | .logging inner =>
    let (cursor, storage) := inner.list listing query storage
    (.absorbing cursor, storage)
  | .retrying _ inner => inner.list listing query storage
  | .staging _ store => store.list listing query storage

/-- Reports a failure of the infrastructure as a rejected commit. -/
def absorb : Except RepositoryError Bool → Except RepositoryError Bool
  | .error cause => if cause.isInfrastructure then .ok false else .error cause
  | .ok accepted => .ok accepted

/-- Commits a source; scripted delays are cut short, as cancelled, when the watched token is. -/
def commitUntil (source : Source) (token : Token) :
    Repository → (watched : Token) → Storage → Except RepositoryError Bool × Storage
  | .bare store, watched, storage => store.commit source token watched storage
  | .logging inner, watched, storage =>
    let (result, storage) := inner.commitUntil source token watched storage
    (absorb result, storage)
  | .retrying policy inner, _, storage =>
    policy.run token (inner.commitUntil source token token) storage
  | .staging ledger store, watched, storage =>
    let (result, storage) := Staging.commitTracked ⟨ledger, store⟩ source token watched storage
    (result.map Option.isSome, storage)

/-- Commits a source. A rejected source is no error. -/
def commit (repository : Repository) (source : Source) (token : Token) (storage : Storage) :
    Except RepositoryError Bool × Storage :=
  repository.commitUntil source token .never storage

/-- Disposes of the session. -/
def dispose (storage : Storage) : Repository → Except RepositoryError Unit × Storage
  | .bare store => store.dispose storage
  | .logging inner => inner.dispose storage
  | .retrying _ inner => inner.dispose storage
  | .staging _ store => store.dispose storage

/-- The first item of the states that a query selects. -/
def firstPointer (repository : Repository) (query : Query) (token : Token) (storage : Storage) :
    Except RepositoryError (Option Pointer) × Storage :=
  let (cursor, storage) := repository.list .pointers query storage
  match cursor.poll token storage with
  | (none, _, storage) => (.ok none, storage)
  | (some (.ok pointer), _, storage) => (.ok (some pointer), storage)
  | (some (.error cause), _, storage) => (.error cause, storage)

end Repository

/-! ## What units of work ask -/

/-- What answers a unit of work. An answer may be a failure, and it may depend on a state of the
backend and change it. -/
structure Backend (σ : Type) where
  /-- The state of whatever holds a lease. -/
  find : Lease → Token → σ → Except RepositoryError (Option Pointer) × σ
  /-- Whether a source is accepted. -/
  commit : Source → Token → σ → Except RepositoryError Bool × σ

/-- A repository as a backend. -/
def Repository.backend (repository : Repository) : Backend Storage where
  find lease token storage := repository.firstPointer (.ofLease lease) token storage
  commit := repository.commit

end LeaseLog
