import LeaseLog.Envelope

/-!
# Repository errors

Why a repository does not do what it is asked. A rejected commit is no error.
-/

namespace LeaseLog

/-- Why a repository does not do what it is asked. -/
inductive RepositoryError
  | cancelled
  | readOnly
  | closed
  | timeout (millis : Nat)
  | envelope (cause : EnvelopeError)
  | backend (detail : String)
deriving DecidableEq, Repr

namespace RepositoryError

/-- Whether trying again may help. -/
def isTransient : RepositoryError → Bool
  | .timeout _ | .backend _ => true
  | .cancelled | .readOnly | .closed | .envelope _ => false

/-- Whether the failure is the infrastructure's and not the caller's. -/
def isInfrastructure : RepositoryError → Bool
  | .timeout _ | .backend _ | .envelope _ => true
  | .cancelled | .readOnly | .closed => false

/-- The wording of a repository error. -/
def message : RepositoryError → String
  | .cancelled => "operation cancelled"
  | .readOnly => "session is read-only"
  | .closed => "session has been disposed"
  | .timeout millis => "write timed out after " ++ Text.decimalText millis ++ " ms"
  | .envelope cause => "envelope error: " ++ cause.message
  | .backend detail => "storage backend failure: " ++ detail

end RepositoryError

end LeaseLog
