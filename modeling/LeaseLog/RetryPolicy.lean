import LeaseLog.Instant.Basic
import LeaseLog.Json.Decoder
import LeaseLog.Rounding

/-!
# Retry policies

How often a failed commit is tried again, and how long the waits in between are. The first wait is
the initial backoff as it stands; every further one is twice the wait before it, up to the largest
backoff. Waits are doubled as seconds in single precision, so that a doubled wait has 24 binary
digits that count and may miss the exact double by a little.
-/

namespace LeaseLog

open Decoder

/-- A span of time. -/
structure Duration where
  nanos : Nat
  isLt : nanos < Nat.pow 2 64 * nanosPerSecond
deriving DecidableEq, Repr

namespace Duration

/-- The span of whole seconds and nanoseconds, if it is not too long. -/
def of? (seconds nanos : Nat) : Option Duration :=
  let total := seconds * nanosPerSecond + nanos
  if h : total < Nat.pow 2 64 * nanosPerSecond then some ⟨total, h⟩ else none

/-- The span of some milliseconds; one that is too long is cut off. -/
def ofMillis (millis : Nat) : Duration :=
  let longest := Nat.pow 2 64 * nanosPerSecond - 1
  ⟨min (millis * 1000000) longest, Nat.lt_of_le_of_lt (Nat.min_le_right _ _) (by decide)⟩

def toJson (duration : Duration) : Json :=
  .object [("secs", .nat (duration.nanos / nanosPerSecond)),
    ("nanos", .nat (duration.nanos % nanosPerSecond))]

/-- Seconds and nanoseconds; a full second of nanoseconds is carried over. Unknown members are
refused. -/
def decoder : Decoder Duration :=
  (recordWith true [required "secs" (natBelow (Nat.pow 2 64)),
      required "nanos" (natBelow (Nat.pow 2 32))]).filterMap
    fun (seconds, nanos, _) => of? seconds nanos

end Duration

/-! ## Seconds in single precision -/

/-- How many units make a second: all numbers of single precision are multiples of `2 ^ -149`. -/
def unitsPerSecond : Nat := Nat.pow 2 149

/-- How many binary digits of a number in single precision count. -/
def singleDigits : Nat := 24

/-- A span in nanoseconds as seconds in single precision, in units. Whole seconds and nanoseconds
are rounded each, and their sum is rounded again. -/
def secondsOfNanos (nanos : Nat) : Nat :=
  let whole := divSignificant singleDigits (nanos / nanosPerSecond * unitsPerSecond) 1
  let part := divSignificant singleDigits (nanos % nanosPerSecond) 1
  let fraction := divSignificant singleDigits (part * unitsPerSecond) nanosPerSecond
  divSignificant singleDigits (whole + fraction) 1

/-- The nanoseconds nearest to some units. -/
def nanosOfSeconds (units : Nat) : Nat := divNearest (units * nanosPerSecond) unitsPerSecond

/-- Twice a span in nanoseconds, doubled in single precision. -/
def twice (nanos : Nat) : Nat := nanosOfSeconds (2 * secondsOfNanos nanos)

/-- How often and after which waits a commit is tried. -/
structure RetryPolicy where
  /-- All attempts, the first one included. -/
  maxAttempts : Nat
  initialBackoff : Duration
  maxBackoff : Duration
deriving DecidableEq, Repr

namespace RetryPolicy

/-- Three attempts, with waits that start at 50 milliseconds and end at a second. -/
def standard : RetryPolicy := ⟨3, .ofMillis 50, .ofMillis 1000⟩

instance : Inhabited RetryPolicy := ⟨standard⟩

/-- How many attempts may follow the first one. -/
def retries (policy : RetryPolicy) : Nat := policy.maxAttempts - 1

/-- The wait after a wait, in nanoseconds. -/
def nextWait (policy : RetryPolicy) (wait : Nat) : Nat := min (twice wait) policy.maxBackoff.nanos

def toJson (policy : RetryPolicy) : Json :=
  .object [("max_attempts", .nat policy.maxAttempts),
    ("initial_backoff", policy.initialBackoff.toJson), ("max_backoff", policy.maxBackoff.toJson)]

def decoder : Decoder RetryPolicy :=
  (record [required "max_attempts" (natBelow (Nat.pow 2 32)),
      required "initial_backoff" Duration.decoder, required "max_backoff" Duration.decoder]).map
    fun (maxAttempts, initialBackoff, maxBackoff, _) =>
      ⟨maxAttempts, initialBackoff, maxBackoff⟩

end RetryPolicy

end LeaseLog
