import LeaseLog.ErrorKind
import LeaseLog.Json.Forms
import LeaseLog.State.Replay

/-!
# JSON forms of outcomes

An outcome is an object whose only member `ok` is the result, or an object whose member `error` is
the kind of the error, with its wording beside it.
-/

namespace LeaseLog

namespace Json

/-- A result. -/
def ok (value : Json) : Json := .object [("ok", value)]

/-- An error. -/
def error (kind message : String) : Json :=
  .object [("error", .string kind), ("message", .string message)]

/-- A result or an error. -/
def ofExcept {ε α : Type} (writeError : ε → Json) (write : α → Json) : Except ε α → Json
  | .ok value => ok (write value)
  | .error cause => writeError cause

end Json

def VersionError.toJson (cause : VersionError) : Json := .error cause.kind cause.message

def RepositoryError.toJson (cause : RepositoryError) : Json := .error cause.kind cause.message

def StreamError.toJson (cause : StreamError) : Json := .error cause.kind cause.message

/-- A decoding error under a kind. Only faults of fields have a wording. -/
def DecodeError.toJson (kind : String) : DecodeError → Json
  | .malformed => .object [("error", .string kind)]
  | cause => .error kind cause.message

/-- An envelope error. A payload of the wrong shape is reported like any text that is. -/
def EnvelopeError.toJson : EnvelopeError → Json
  | .shape cause => cause.toJson "Envelope/Serialization"
  | cause => .error cause.kind cause.message

/-- A configuration error. A file that cannot be read has no wording. -/
def ConfigError.toJson : ConfigError → Json
  | .io => .object [("error", .string "Io")]
  | .parse cause => cause.toJson "Parse"
  | cause => .error cause.kind cause.message

/-- A violation, with the rule and the reason. -/
def Violation.toJson (violation : Violation) : Json :=
  .object [("error", .string "InvariantViolation"), ("invariant", .string violation.invariant),
    ("reason", .string violation.reason), ("message", .string violation.message)]

/-- A replay error, with the source and the rule. -/
def ReplayError.toJson (cause : ReplayError) : Json :=
  .object [("error", .string "ReplayRejected"), ("source_id", cause.sourceId.toJson),
    ("invariant", .string cause.violation.invariant), ("message", .string cause.message)]

end LeaseLog
