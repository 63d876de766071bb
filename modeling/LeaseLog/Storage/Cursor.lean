import LeaseLog.Storage.Session

/-!
# Cursors

A cursor hands out the items of a listing one at a time. A session's cursor looks at the log when
the first item is asked for, and not again. On the way from the session, items may be inserted, a
failure may come in between, and a failure of the infrastructure may be turned into an early end.
-/

namespace LeaseLog

/-- What a cursor hands out. -/
abbrev Entry (listing : Listing) : Type := Except RepositoryError listing.Item

/-- A session's own listing. -/
inductive Scan (listing : Listing)
  /-- Nothing was asked for yet. Keeps whether the session was open when the listing was
  requested. -/
  | requested (engine : Nat) (plan : Plan) (access : Except RepositoryError Unit)
  /-- The items that were not handed out yet. -/
  | running (pending : List (Entry listing))

namespace Scan

/-- Hands out the next of some entries. A cancelled token turns it into an error, and an error is
the last entry. -/
def next {listing : Listing} (cancelled : Bool) :
    List (Entry listing) → Option (Entry listing) × Scan listing
  | [] => (none, .running [])
  | entry :: pending =>
    if cancelled then (some (.error .cancelled), .running [])
    else
      match entry with
      | .ok item => (some (.ok item), .running pending)
      | .error cause => (some (.error cause), .running [])

/-- All entries that are left, if nothing is cancelled. -/
def entries {listing : Listing} (storage : Storage) : Scan listing → List (Entry listing)
  | .requested engine plan access =>
    match access with
    | .error cause => [.error cause]
    | .ok () => (listing.snapshot (storage.stateOf engine) plan).map .ok
  | .running pending => pending

/-- The storage after the next entry was asked for: the first time, the log is taken. -/
def touch {listing : Listing} (storage : Storage) : Scan listing → Storage
  | .requested _ _ (.ok ()) => storage.spend
  | .requested _ _ (.error _) | .running _ => storage

/-- Asks for the next entry; `none` is the end. -/
def poll {listing : Listing} (scan : Scan listing) (token : Token) (storage : Storage) :
    Option (Entry listing) × Scan listing × Storage :=
  let after := scan.touch storage
  let (entry, scan) := next (token.isCancelled after.now) (scan.entries storage)
  (entry, scan, after)

end Scan

/-- A listing as a repository hands it out. -/
inductive Cursor (listing : Listing)
  | plain (scan : Scan listing)
  /-- Items that come first, then items of the session up to a failure, if one is to come, and what
  follows it. -/
  | faulty (inserted : List listing.Item) (failure : Option RepositoryError) (before : Nat)
      (resumes : Bool) (scan : Scan listing)
  /-- Ends early when the infrastructure fails. -/
  | absorbing (inner : Cursor listing)
  /-- Nothing is left. -/
  | ended

namespace Cursor

/-- What follows a failure. -/
def afterFailure {listing : Listing} (resumes : Bool) (scan : Scan listing) : Cursor listing :=
  if resumes then .plain scan else .ended

/-- The entries up to a failure of the infrastructure. -/
def untilFailure {listing : Listing} : List (Entry listing) → List (Entry listing)
  | [] => []
  | .ok item :: entries => .ok item :: untilFailure entries
  | .error cause :: entries =>
    if cause.isInfrastructure then [] else .error cause :: untilFailure entries

/-- All entries that are left, if nothing is cancelled and the log stays as it is. -/
def entries {listing : Listing} (storage : Storage) : Cursor listing → List (Entry listing)
  | .plain scan => scan.entries storage
  | .faulty inserted none _ _ scan => inserted.map .ok ++ scan.entries storage
  | .faulty inserted (some cause) before resumes scan =>
    let rest := scan.entries storage
    inserted.map .ok ++ rest.take before ++
      .error cause :: (if resumes then rest.drop before else [])
  | .absorbing inner => untilFailure (inner.entries storage)
  | .ended => []

/-- Asks for the next entry; `none` is the end. -/
def poll {listing : Listing} (token : Token) (storage : Storage) :
    Cursor listing → Option (Entry listing) × Cursor listing × Storage
  | .ended => (none, .ended, storage)
  | .plain scan =>
    let (entry, scan, storage) := scan.poll token storage
    (entry, .plain scan, storage)
  | .faulty (item :: inserted) failure before resumes scan =>
    (some (.ok item), .faulty inserted failure before resumes scan, storage)
  | .faulty [] none _ _ scan =>
    let (entry, scan, storage) := scan.poll token storage
    (entry, .plain scan, storage)
  | .faulty [] (some cause) 0 resumes scan =>
    (some (.error cause), afterFailure resumes scan, storage)
  | .faulty [] (some cause) (before + 1) resumes scan =>
    match scan.poll token storage with
    | (some entry, scan, storage) =>
      (some entry, .faulty [] (some cause) before resumes scan, storage)
    | (none, scan, storage) => (some (.error cause), afterFailure resumes scan, storage)
  | .absorbing inner =>
    match inner.poll token storage with
    | (some (.error cause), inner, storage) =>
      if cause.isInfrastructure then (none, .ended, storage)
      else (some (.error cause), .absorbing inner, storage)
    | (entry, inner, storage) => (entry, .absorbing inner, storage)

end Cursor

end LeaseLog
