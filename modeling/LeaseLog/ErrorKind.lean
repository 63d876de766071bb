import LeaseLog.Stream.Basic

/-!
# Kinds of errors

Short names by which a program can tell causes apart without reading their wording. The kind of a
cause that another cause led to has the kind of that one behind a slash.
-/

namespace LeaseLog

/-- The kind of a version error. -/
def VersionError.kind : VersionError → String
  | .underflow => "Underflow"
  | .overflow _ => "Overflow"

/-- The kind of an envelope error. -/
def EnvelopeError.kind : EnvelopeError → String
  | .serialization _ | .shape _ => "Envelope/Serialization"
  | .typeMismatch _ _ => "Envelope/TypeMismatch"

/-- The kind of a repository error. -/
def RepositoryError.kind : RepositoryError → String
  | .cancelled => "Cancelled"
  | .readOnly => "ReadOnly"
  | .closed => "Closed"
  | .timeout _ => "Timeout"
  | .envelope cause => cause.kind
  | .backend _ => "Backend"

/-- The kind of a configuration error. -/
def ConfigError.kind : ConfigError → String
  | .io => "Io"
  | .parse _ => "Parse"
  | .unknownAgent _ => "UnknownAgent"
  | .unknownSession _ => "UnknownSession"

/-- The kind of a stream error. -/
def StreamError.kind : StreamError → String
  | .alreadyLoaded _ => "AlreadyLoaded"
  | .notLoaded _ => "NotLoaded"
  | .unknownKey _ => "UnknownStreamKey"
  | .repository cause => "Repository/" ++ cause.kind
  | .envelope cause => cause.kind
  | .version cause => "Version/" ++ cause.kind
  | .config cause => "Config/" ++ cause.kind

end LeaseLog
