import LeaseLog.Stream.UnitOfWork

/-!
# Single streams

A unit of work that is used for one stream only.
-/

namespace LeaseLog

/-- A unit of work and the handle of the stream that it is used for. -/
structure SingleStream where
  unit : UnitOfWork
  handle : Nat

namespace SingleStream

/-- The single stream of a unit that has looked the key up. -/
def ofUnit (unit : UnitOfWork) (key : String) : Except StreamError SingleStream :=
  match unit.handle? key with
  | none => .error (.notLoaded key)
  | some handle => .ok ⟨unit, handle⟩

/-- The stream. -/
def stream (single : SingleStream) : Stream := (single.unit.streamAt? single.handle).getD default

/-- The key of the stream. -/
def key (single : SingleStream) : String := single.stream.key

/-- The same stream in the unit after an operation. -/
def withUnit (single : SingleStream) (unit : UnitOfWork) : SingleStream := { single with unit }

/-- Gathers a delta as the next message. -/
def append (single : SingleStream) (delta : Delta) : Except StreamError Pointer × SingleStream :=
  let (result, unit) := single.unit.append single.key delta
  (result, single.withUnit unit)

/-- Gathers a delta with further leases and tags, unless the stream has its message key already. -/
def appendWith (single : SingleStream) (delta : Delta) (extras : Extras) (token : Token)
    (storage : Storage) : Except StreamError Bool × SingleStream × Storage :=
  let (result, unit, storage) := single.unit.appendWith single.key delta extras token storage
  (result, single.withUnit unit, storage)

/-- Gathers a delta, unless the stream has its message key already. -/
def appendKeyed (single : SingleStream) (delta : Delta) (token : Token) (storage : Storage) :
    Except StreamError Bool × SingleStream × Storage :=
  single.appendWith delta .none token storage

/-- Commits what was gathered. -/
def commit (single : SingleStream) (stamp : Stamp) (token : Token) (storage : Storage) :
    Except StreamError Bool × SingleStream × Storage :=
  let (result, unit, storage) := single.unit.commit stamp token storage
  (result, single.withUnit unit, storage)

/-- Gives the repository back. -/
def dispose (single : SingleStream) (storage : Storage) : Except StreamError Unit × Storage :=
  single.unit.dispose storage

end SingleStream

end LeaseLog
