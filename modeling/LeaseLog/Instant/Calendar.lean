/-!
# Calendar dates

Dates of the Gregorian calendar, extended to all years, and their day numbers. Day zero is the
first of January 1970.
-/

namespace LeaseLog

/-- A date of the Gregorian calendar. -/
structure Date where
  year : Int
  month : Nat
  day : Nat
deriving DecidableEq, Repr

namespace Date

/-- Whether a year has a 29th of February. -/
def isLeapYear (year : Int) : Bool :=
  year % 4 == 0 && (year % 100 != 0 || year % 400 == 0)

/-- The lengths of the months of a year. -/
def monthLengths (leapYear : Bool) : List Nat :=
  [31, if leapYear then 29 else 28, 31, 30, 31, 30, 31, 31, 30, 31, 30, 31]

/-- The day number of the first day of a year, counted from the start of year zero. -/
def daysBeforeYear (year : Int) : Int :=
  365 * year + (year + 3) / 4 - (year + 99) / 100 + (year + 399) / 400

/-- The day number of the first of January 1970, counted from the start of year zero. -/
def epoch : Int := 719528

/-- Whether the calendar has this date. -/
def isValid (date : Date) : Bool :=
  match date.month with
  | 0 => false
  | month + 1 =>
    match (monthLengths (isLeapYear date.year))[month]? with
    | some length => decide (1 ≤ date.day ∧ date.day ≤ length)
    | none => false

/-- The day number of a date. -/
def toDays (date : Date) : Int :=
  let earlier := (monthLengths (isLeapYear date.year)).take (date.month - 1)
  daysBeforeYear date.year + (earlier.foldl (· + ·) 0 + date.day - 1 : Nat) - epoch

/-- The year of a day that is counted from the start of year zero. The mean length of a year gives
a year that is at most one off. -/
def yearOf (days : Int) : Int :=
  let estimate := days * 400 / 146097
  if days < daysBeforeYear estimate then estimate - 1
  else if days < daysBeforeYear (estimate + 1) then estimate
  else estimate + 1

/-- The month and the day of the month, both counted from zero, of a day of the year. -/
def monthOf : List Nat → Nat → Nat × Nat
  | [], day => (0, day)
  | length :: lengths, day =>
    if day < length then (0, day)
    else
      let (month, day) := monthOf lengths (day - length)
      (month + 1, day)

/-- The date of a day number. -/
def ofDays (days : Int) : Date :=
  let fromZero := days + epoch
  let year := yearOf fromZero
  let (month, day) :=
    monthOf (monthLengths (isLeapYear year)) (fromZero - daysBeforeYear year).toNat
  ⟨year, month + 1, day + 1⟩

end Date

end LeaseLog
