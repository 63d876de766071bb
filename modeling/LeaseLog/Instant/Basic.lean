import Std.Data.ExtTreeMap

/-!
# Instants

Points in time with nanoseconds, in universal time. A leap second is the second after the last one
of its minute: it has the same whole seconds and a nanosecond part of a full second or more.
-/

namespace LeaseLog

/-- The nanoseconds of a second. -/
abbrev nanosPerSecond : Nat := 1000000000

/-- A point in time. -/
structure Instant where
  /-- Whole seconds since the start of 1970. -/
  seconds : Int
  /-- Nanoseconds past the whole second. -/
  nanos : Nat
  nanos_lt : nanos < 2 * nanosPerSecond
  /-- A second lasts longer than its nanoseconds only at the end of a minute. -/
  leap : nanosPerSecond ≤ nanos → seconds % 60 = 59
deriving DecidableEq, Repr

namespace Instant

/-- Earlier whole seconds first, then fewer nanoseconds. -/
def order : Instant → Instant → Ordering := compareLex (compareOn seconds) (compareOn nanos)

instance : Ord Instant := ⟨order⟩

instance : Std.TransOrd Instant :=
  inferInstanceAs (Std.TransCmp (compareLex (compareOn seconds) (compareOn nanos)))

instance : Std.LawfulEqOrd Instant where
  compare_self :=
    (inferInstance : Std.ReflCmp
      (compareLex (compareOn seconds) (compareOn nanos))).compare_self
  eq_of_compare {a b} same := by
    change order a b = .eq at same
    simp only [order, compareLex, compareOn, Ordering.then_eq_eq,
      Std.LawfulEqCmp.compare_eq_iff_eq] at same
    cases a; cases b; simp_all

/-- The instant at a whole second and nanoseconds of it; `none` if there is no such instant. -/
def of? (seconds : Int) (nanos : Nat) : Option Instant :=
  if h : nanos < 2 * nanosPerSecond ∧ (nanosPerSecond ≤ nanos → seconds % 60 = 59) then
    some ⟨seconds, nanos, h.1, h.2⟩
  else none

/-- The start of 1970. -/
def epoch : Instant := ⟨0, 0, by decide, by decide⟩

instance : Inhabited Instant := ⟨epoch⟩

/-- The instant so many nanoseconds after the start of 1970. -/
def ofNanos (nanos : Nat) : Instant :=
  ⟨nanos / nanosPerSecond, nanos % nanosPerSecond, by unfold nanosPerSecond; omega,
    by unfold nanosPerSecond; omega⟩

/-- The instant as much later. -/
def later (nanos : Nat) (instant : Instant) : Instant :=
  let total := instant.nanos + nanos
  ⟨instant.seconds + (total / nanosPerSecond : Nat), total % nanosPerSecond,
    by unfold nanosPerSecond; omega, by unfold nanosPerSecond; omega⟩

end Instant

end LeaseLog
