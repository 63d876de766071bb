import LeaseLog.State.Overlay

/-!
# Replay

The state of a log is rebuilt from its sources under the same rules that a live commit obeys.
-/

namespace LeaseLog

/-- A source that a replay refuses, and why. -/
structure ReplayError where
  sourceId : Ident
  violation : Violation
deriving DecidableEq, Repr

/-- The wording of a replay error. -/
def ReplayError.message (error : ReplayError) : String :=
  "source " ++ error.sourceId.toText ++ " rejected during replay: " ++ error.violation.message

namespace LogState

/-- Applies sources to a state one after another, up to the first one that is refused. -/
def applyAll (invariants : List Invariant) : LogState → List Source → Except ReplayError LogState
  | state, [] => .ok state
  | state, source :: sources =>
    match state.apply source invariants with
    | .error violation => .error ⟨source.id, violation⟩
    | .ok state => applyAll invariants state sources

/-- The state of a log with the given sources. -/
def replay (sources : List Source) (invariants : List Invariant) : Except ReplayError LogState :=
  applyAll invariants empty sources

end LogState

end LeaseLog
