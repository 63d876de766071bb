/-!
# Clocks and planned cancellations

Time passes only while somebody waits. A token calls off the operations that were given it, at once
or at a planned time. A plan is carried out while somebody waits past its time: at the time of the
plan, or when the wait begins if that is later. If a wait ends at the very time of a plan, the one
who waited goes on first, and the plan is carried out during the next wait.

An operation that finds its log free goes on at once. Whoever has done a number of operations
without a wait gives way before the next one, so that plans that are due are carried out then too.
-/

namespace LeaseLog

/-- A time, in nanoseconds, and how often plans were let in at that time. Everything planned for an
earlier moment has been carried out. -/
structure Moment where
  time : Nat
  turn : Nat
deriving DecidableEq, Repr, Inhabited

namespace Moment

/-- Whether a moment comes before another one. -/
def isBefore (a b : Moment) : Bool := a.time < b.time || (a.time == b.time && a.turn < b.turn)

/-- The moment after plans were let in. -/
def next (now : Moment) : Moment := { now with turn := now.turn + 1 }

/-- The moment at which a wait is cut short that began now, by a plan for a time. -/
def interruptedAt (now : Moment) (time : Nat) : Moment :=
  if time ≤ now.time then now.next else ⟨time, 1⟩

end Moment

/-! ## Spans -/

/-- How fine clocks are: waits end at whole milliseconds. -/
def tick : Nat := 1000000

/-- How long one wait can be, in nanoseconds: 30 years of 365 days. -/
def longestWait : Nat := 30 * 365 * 86400 * 1000000000

/-- The time at which a wait ends that nothing cuts short. -/
def waitEnd (time duration : Nat) : Nat :=
  (time + min duration longestWait + (tick - 1)) / tick * tick

/-! ## Tokens -/

/-- Whether operations are called off, and when they will be. -/
structure Token where
  cancelled : Bool
  planned : Option Moment
deriving DecidableEq, Repr, Inhabited

namespace Token

/-- The token that calls nothing off. -/
def never : Token := ⟨false, none⟩

/-- Whether operations are called off by now. -/
def isCancelled (token : Token) (now : Moment) : Bool :=
  token.cancelled || token.planned.any fun moment => moment.isBefore now

/-- The token cancelled at once. -/
def cancel (token : Token) : Token := { token with cancelled := true }

/-- The token that is to be cancelled after a wait that begins now, or as it was planned before if
that is earlier. -/
def cancelAfter (now : Moment) (duration : Nat) (token : Token) : Token :=
  let later := if duration = 0 then now else ⟨waitEnd now.time duration, 0⟩
  { token with planned := some (match token.planned with
      | some moment => if moment.isBefore later then moment else later
      | none => later) }

end Token

/-! ## Clocks -/

/-- What time it is, and how many operations are left until somebody has to give way. -/
structure Clock where
  now : Moment
  allowance : Nat
deriving DecidableEq, Repr, Inhabited

namespace Clock

/-- How many operations follow each other before one gives way. -/
def fullAllowance : Nat := 128

/-- A clock at zero. -/
def start : Clock := ⟨⟨0, 0⟩, fullAllowance⟩

/-- Nanoseconds that have passed. -/
def time (clock : Clock) : Nat := clock.now.time

/-- Gives way if the allowance is used up: plans that are due are carried out. -/
def refresh (clock : Clock) : Clock :=
  if clock.allowance = 0 then ⟨clock.now.next, fullAllowance⟩ else clock

/-- Does one operation, and gives way before it if the allowance is used up. -/
def spend (clock : Clock) : Clock :=
  let clock := clock.refresh
  { clock with allowance := clock.allowance - 1 }

/-- Waits, or until a watched token is cancelled; says whether the whole wait is over. A wait of no
length is an operation like others. -/
def wait (clock : Clock) (duration : Nat) (watched : Token) : Bool × Clock :=
  if duration = 0 then
    let clock := clock.spend
    (!watched.isCancelled clock.now, clock)
  else if watched.isCancelled clock.now then (false, clock)
  else
    let finish := waitEnd clock.time duration
    let ended : Clock := ⟨⟨finish, 0⟩, fullAllowance - 1⟩
    match watched.planned with
    | none => (true, ended)
    | some moment =>
      if moment.time < finish then (false, ⟨clock.now.interruptedAt moment.time, fullAllowance⟩)
      else (true, ended)

end Clock

end LeaseLog
