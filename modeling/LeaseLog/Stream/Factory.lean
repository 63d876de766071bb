import LeaseLog.Stream.Single

/-!
# Factories of units of work

A factory finds the agent and the session settings of a name, opens a session through its connector
and starts a unit of work on it.
-/

namespace LeaseLog

/-- Opens sessions on an engine. -/
structure Connector where
  engine : Nat
  /-- The script that every session fails by. -/
  faults : Option Nat
  /-- How the next connections end; those beyond it succeed. -/
  outcomes : List (Option RepositoryError)
  /-- Every store that was opened. -/
  opened : List Store
deriving DecidableEq, Repr

namespace Connector

/-- Opens a session, and provisions the engine under a guard before. -/
def connect (connector : Connector) (guard : Nat) (options : SessionOptions) (storage : Storage) :
    Except RepositoryError Store × Connector × Storage :=
  let (outcome, outcomes) := Store.nextFault connector.outcomes
  let connector := { connector with outcomes }
  match outcome with
  | some (some cause) => (.error cause, connector, storage)
  | some none | none =>
    let (session, storage) := storage.connect guard connector.engine options
    let store := match connector.faults with
      | none => .plain session
      | some script => .scripted script session
    (.ok store, { connector with opened := connector.opened ++ [store] }, storage)

end Connector

/-- How the key of a single stream is looked up. -/
inductive Resolution
  | loadOrCreate
  | create
  | load
deriving DecidableEq, Repr

/-- Starts units of work by the names of agents and sessions. -/
structure Factory where
  connector : Connector
  config : Config
  guard : Nat
  /-- The process that signs. -/
  processId : Nat

namespace Factory

/-- Opens a session and starts a unit of work on it. -/
def createMultiple (factory : Factory) (agent session : String) (storage : Storage) :
    Except StreamError UnitOfWork × Factory × Storage :=
  match factory.config.agent agent with
  | .error cause => (.error (.config cause), factory, storage)
  | .ok profile =>
    match factory.config.session session with
    | .error cause => (.error (.config cause), factory, storage)
    | .ok options =>
      let (store, connector, storage) := factory.connector.connect factory.guard options storage
      let factory := { factory with connector }
      match store with
      | .error cause => (.error (.repository cause), factory, storage)
      | .ok store =>
        (.ok (.start (.bare store) (.ok (profile.sign factory.processId))), factory, storage)

/-- Looks a key up in a unit of work. -/
def resolve (unit : UnitOfWork) (resolution : Resolution) (key : String) (fresh : Ident)
    (token : Token) (storage : Storage) : Except StreamError Nat × UnitOfWork × Storage :=
  match resolution with
  | .loadOrCreate => unit.loadOrCreate key fresh token storage
  | .create =>
    let (result, unit) := unit.create key fresh
    (result, unit, storage)
  | .load => unit.load key token storage

/-- Opens a session for one stream. If the stream is not found, the session is given back. -/
def createSingle (factory : Factory) (agent session : String) (resolution : Resolution)
    (key : String) (fresh : Ident) (token : Token) (storage : Storage) :
    Except StreamError SingleStream × Factory × Storage :=
  match factory.createMultiple agent session storage with
  | (.error cause, factory, storage) => (.error cause, factory, storage)
  | (.ok unit, factory, storage) =>
    match resolve unit resolution key fresh token storage with
    | (.error cause, unit, storage) => (.error cause, factory, (unit.dispose storage).2)
    | (.ok _, unit, storage) => (SingleStream.ofUnit unit key, factory, storage)

end Factory

end LeaseLog
