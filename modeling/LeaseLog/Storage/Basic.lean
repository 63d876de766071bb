import LeaseLog.Clock
import LeaseLog.Config
import LeaseLog.Guard
import LeaseLog.Listing
import LeaseLog.RepositoryError
import LeaseLog.State.Replay

/-!
# Storage

Everything that sessions share: the logs of the engines, the sessions themselves, the failures that
are scripted for them, the ledgers of staged commits, the guards of provisioning, and the clock.
Objects are named by their index.
-/

namespace LeaseLog

/-- A log, and how often its index was provisioned. -/
structure Engine where
  state : LogState
  provisions : Nat

namespace Engine

/-- An engine with an empty log. -/
def empty : Engine := ⟨.empty, 0⟩

/-- An engine whose log has the given sources. -/
def ofSources (sources : List Source) : Except ReplayError Engine :=
  match LogState.replay sources Invariant.standard with
  | .ok state => .ok ⟨state, 0⟩
  | .error cause => .error cause

end Engine

/-- Access to the log of an engine. -/
structure Session where
  engine : Nat
  options : SessionOptions
  closed : Bool
deriving DecidableEq, Repr

/-- What happens to one commit before it reaches its session. -/
structure CommitFault where
  /-- How long the commit is held up, in nanoseconds, if it is. -/
  delay : Option Nat
  failure : Option RepositoryError
deriving DecidableEq, Repr, Inhabited

/-- What happens to one read on its way from its session. -/
structure ReadFault where
  /-- Items that come before those of the session. -/
  inserted : (listing : Listing) → List listing.Item
  failure : Option RepositoryError
  /-- How many items of the session come before the failure. -/
  before : Nat
  /-- Whether the remaining items follow the failure. -/
  resumes : Bool

/-- A read that nothing happens to. -/
def ReadFault.none : ReadFault := ⟨fun _ => [], Option.none, 0, false⟩

/-- What happens to the next calls of each sort; calls beyond the script are let through. -/
structure FaultScript where
  commits : List CommitFault
  reads : List ReadFault
  purges : List (Option RepositoryError)
  disposals : List (Option RepositoryError)
  /-- When commits came in, the last one first. -/
  arrivals : List Nat

namespace FaultScript

/-- The time between each of some times and the one before it. -/
def differences : (before : Nat) → List Nat → List Nat
  | _, [] => []
  | before, time :: times => (time - before) :: differences time times

/-- How long after the one before it each commit came in; the first one is counted from zero. -/
def gaps (script : FaultScript) : List Nat := differences 0 script.arrivals.reverse

end FaultScript

/-- Everything that sessions share. -/
structure Storage where
  engines : List Engine
  sessions : List Session
  scripts : List FaultScript
  /-- The sources that each staging repository committed; a slot is emptied and never removed. -/
  ledgers : List (List (Option Ident))
  guards : List Guard
  clock : Clock
  /-- Which one is noticed first when a commit comes to a free log with a cancelled token: the log
  or the cancellation. Both can happen. -/
  logFirst : Bool

namespace Storage

/-- Nothing but a clock at zero. -/
def empty : Storage := ⟨[], [], [], [], [], .start, false⟩

/-- The moment that the clock shows. -/
def now (storage : Storage) : Moment := storage.clock.now

/-- Does an operation that finds what it needs free. -/
def spend (storage : Storage) : Storage := { storage with clock := storage.clock.spend }

/-- Gives way if the allowance of operations is used up. -/
def refresh (storage : Storage) : Storage := { storage with clock := storage.clock.refresh }

/-- Waits, or until a watched token is cancelled; says whether the whole wait is over. -/
def wait (storage : Storage) (duration : Nat) (watched : Token) : Bool × Storage :=
  let (finished, clock) := storage.clock.wait duration watched
  (finished, { storage with clock })

/-- Replaces the log state of an engine. -/
def setState (storage : Storage) (index : Nat) (state : LogState) : Storage :=
  { storage with engines := storage.engines.modify index fun engine => { engine with state } }

/-- The log state of an engine; empty if there is no such engine. -/
def stateOf (storage : Storage) (index : Nat) : LogState :=
  match storage.engines[index]? with
  | some engine => engine.state
  | none => .empty

/-- Takes the log of an engine and looks at its state. -/
def readLog (storage : Storage) (index : Nat) : LogState × Storage :=
  (storage.stateOf index, storage.spend)

/-- Adds an engine. -/
def addEngine (storage : Storage) (engine : Engine) : Nat × Storage :=
  (storage.engines.length, { storage with engines := storage.engines ++ [engine] })

/-- Opens a session on an engine. -/
def addSession (storage : Storage) (engine : Nat) (options : SessionOptions) : Nat × Storage :=
  (storage.sessions.length,
    { storage with sessions := storage.sessions ++ [⟨engine, options, false⟩] })

/-- Adds a script of failures. -/
def addScript (storage : Storage) (script : FaultScript) : Nat × Storage :=
  (storage.scripts.length, { storage with scripts := storage.scripts ++ [script] })

/-- Adds an empty ledger. -/
def addLedger (storage : Storage) : Nat × Storage :=
  (storage.ledgers.length, { storage with ledgers := storage.ledgers ++ [[]] })

/-- Adds a guard under which nothing was provisioned. -/
def addGuard (storage : Storage) : Nat × Storage :=
  (storage.guards.length, { storage with guards := storage.guards ++ [.fresh] })

/-- Provisions the index of an engine under a guard, unless that was done, and opens a session. -/
def connect (storage : Storage) (guard engine : Nat) (options : SessionOptions) : Nat × Storage :=
  let before := (storage.guards[guard]?).getD .fresh
  let provision (storage : Storage) : Except Empty Unit × Storage :=
    (.ok (), { storage.spend with
      engines := storage.engines.modify engine fun engine =>
        { engine with provisions := engine.provisions + 1 } })
  let (_, after, storage) := before.ensure provision storage
  { storage with guards := storage.guards.set guard after }.addSession engine options

end Storage

end LeaseLog
