import LeaseLog.Ident
import LeaseLog.Version

/-!
# State pointers

A pointer names one state of one entity.
-/

namespace LeaseLog

/-- One state of one entity. -/
structure Pointer where
  id : Ident
  version : Version
deriving DecidableEq, Repr, Inhabited

namespace Pointer

/-- The pointer that asks for whatever the latest state of an entity is. -/
def latest (id : Ident) : Pointer := ⟨id, .zero⟩

/-- The pointer to the state that follows this one. -/
def next (pointer : Pointer) : Except VersionError Pointer :=
  match pointer.version.next with
  | .ok version => .ok ⟨pointer.id, version⟩
  | .error cause => .error cause

/-- Whether `candidate` is a state that the pointer asks for: any existing version of the entity
for a pointer of version zero, exactly the named one otherwise. -/
def isSatisfiedBy (pointer candidate : Pointer) : Bool :=
  if pointer.id = candidate.id then
    if pointer.version.isZero then !candidate.version.isZero
    else decide (pointer.version = candidate.version)
  else false

/-- The form `id@version`. -/
def toText (pointer : Pointer) : String := pointer.id.toText ++ "@" ++ pointer.version.toText

end Pointer

end LeaseLog
