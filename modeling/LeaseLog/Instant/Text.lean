import LeaseLog.Instant.Basic
import LeaseLog.Instant.Calendar
import LeaseLog.Text.Blank
import LeaseLog.Text.Decimal

/-!
# Written instants

Instants are written in universal time with as many groups of three fraction digits as they need.
They are read with any offset. The reader is lenient: numbers may follow white space, leading zeros
may be missing, and digits beyond the ninth of a fraction are dropped.
-/

namespace LeaseLog.Instant

/-! ## Writing -/

/-- A year: four digits, or a sign and at least four digits outside the years 0 to 9999. -/
def yearText (year : Int) : List Char :=
  if 0 ≤ year ∧ year ≤ 9999 then Text.padded 4 year.toNat
  else (if year < 0 then '-' else '+') :: Text.padded 4 year.natAbs

/-- A date as year, month and day. -/
def dateText (date : Date) : List Char :=
  yearText date.year ++ '-' :: Text.padded 2 date.month ++ '-' :: Text.padded 2 date.day

/-- A fraction of a second: a point and three, six or nine digits, or nothing. -/
def fractionText (nanos : Nat) : List Char :=
  if nanos = 0 then []
  else if nanos % 1000000 = 0 then '.' :: Text.padded 3 (nanos / 1000000)
  else if nanos % 1000 = 0 then '.' :: Text.padded 6 (nanos / 1000)
  else '.' :: Text.padded 9 nanos

/-- A time of day. A leap second is second 60. -/
def timeText (secondOfDay nanos : Nat) : List Char :=
  let second := secondOfDay % 60 + nanos / nanosPerSecond
  Text.padded 2 (secondOfDay / 3600) ++ ':' :: Text.padded 2 (secondOfDay / 60 % 60) ++
    ':' :: Text.padded 2 second ++ fractionText (nanos % nanosPerSecond)

/-- Date, the letter T and time, without an offset. -/
def bareText (instant : Instant) : List Char :=
  dateText (.ofDays (instant.seconds / 86400)) ++
    'T' :: timeText (instant.seconds % 86400).toNat instant.nanos

/-- The written form, with the letter Z for universal time. -/
def toText (instant : Instant) : String := String.ofList (instant.bareText ++ ['Z'])

/-- The written form with a numeric offset. -/
def toOffsetText (instant : Instant) : String :=
  String.ofList (instant.bareText ++ "+00:00".toList)

/-! ## Reading -/

/-- Reads between one and `width` digits. -/
def readDigits (width : Nat) (cs : List Char) : Option (Nat × List Char) :=
  let digits := (cs.take width).takeWhile Text.isDigit
  if digits.isEmpty then none else some (Text.ofDigits digits, cs.drop digits.length)

/-- Reads a number of at most `width` digits behind white space. -/
def readField (width : Nat) (cs : List Char) : Option (Nat × List Char) :=
  readDigits width (Text.skipBlank cs)

/-- Reads a number of at most two digits behind white space, a separator and more white space. -/
def readPart (separator : Char) (cs : List Char) : Option (Nat × List Char) :=
  match Text.skipBlank cs with
  | c :: rest => if c = separator then readField 2 rest else none
  | [] => none

/-- Reads a year: four digits, or a sign and any number of digits. -/
def readYear (cs : List Char) : Option (Int × List Char) :=
  match Text.skipBlank cs with
  | '-' :: rest => (readDigits rest.length rest).map fun (year, rest) => (-(year : Int), rest)
  | '+' :: rest => (readDigits rest.length rest).map fun (year, rest) => ((year : Int), rest)
  | cs => (readDigits 4 cs).map fun (year, rest) => ((year : Int), rest)

/-- Reads a date. -/
def readDate (cs : List Char) : Option (Date × List Char) :=
  match readYear cs with
  | none => none
  | some (year, rest) =>
    match readPart '-' rest with
    | none => none
    | some (month, rest) =>
      match readPart '-' rest with
      | none => none
      | some (day, rest) => some (⟨year, month, day⟩, rest)

/-- Reads the fraction of a second in nanoseconds, if there is one. -/
def readFraction : List Char → Option (Nat × List Char)
  | '.' :: rest =>
    let digits := rest.takeWhile Text.isDigit
    if digits.isEmpty then none
    else
      let kept := digits.take 9
      some (Text.ofDigits kept * Nat.pow 10 (9 - kept.length), rest.drop digits.length)
  | cs => some (0, cs)

/-- Reads a time of day: its whole seconds, its nanoseconds and the rest. Second 60 is the leap
second behind second 59. -/
def readTime (cs : List Char) : Option (Nat × Nat × List Char) :=
  match readField 2 cs with
  | none => none
  | some (hour, rest) =>
    match readPart ':' rest with
    | none => none
    | some (minute, rest) =>
      match readPart ':' rest with
      | none => none
      | some (second, rest) =>
        match readFraction rest with
        | none => none
        | some (nanos, rest) =>
          if 23 < hour ∨ 59 < minute ∨ 60 < second then none
          else
            let minutes := hour * 60 + minute
            if second = 60 then some (minutes * 60 + 59, nanosPerSecond + nanos, rest)
            else some (minutes * 60 + second, nanos, rest)

/-- Reads two digits. -/
def readTwoDigits : List Char → Option (Nat × List Char)
  | a :: b :: rest =>
    if Text.isDigit a && Text.isDigit b then some (Text.ofDigits [a, b], rest) else none
  | _ => none

/-- Reads the hours and minutes of an offset, in seconds. -/
def readOffsetSize (cs : List Char) : Option (Nat × List Char) :=
  match readTwoDigits cs with
  | none => none
  | some (hours, rest) =>
    match readTwoDigits (rest.dropWhile fun c => c = ':' || Text.isBlank c) with
    | none => none
    | some (minutes, rest) =>
      if 59 < minutes ∨ 23 < hours then none else some ((hours * 60 + minutes) * 60, rest)

/-- Whether a text starts with the letters UTC in either case. -/
def startsWithUtc (cs : List Char) : Bool :=
  (cs.take 3).map Char.toLower == ['u', 't', 'c']

/-- Reads an offset from universal time, in seconds. -/
def readOffset (cs : List Char) : Option (Int × List Char) :=
  if startsWithUtc cs then some (0, cs.drop 3)
  else
    match cs with
    | [] => none
    | c :: rest =>
      if c = 'Z' ∨ c = 'z' then some (0, rest)
      else if c = '+' then (readOffsetSize rest).map fun (size, rest) => ((size : Int), rest)
      else if c = '-' ∨ c = '−' then
        (readOffsetSize rest).map fun (size, rest) => (-(size : Int), rest)
      else none

/-- Whether instants can lie in a year. -/
def isYear (year : Int) : Bool := decide (-262143 ≤ year ∧ year ≤ 262142)

/-- The instant at a local date, second of the day, nanoseconds and offset. -/
def ofLocal? (date : Date) (secondOfDay nanos : Nat) (offset : Int) : Option Instant :=
  if date.isValid && isYear date.year then
    let seconds := date.toDays * 86400 + secondOfDay - offset
    if isYear (Date.ofDays (seconds / 86400)).year then of? seconds nanos else none
  else none

/-- Reads an instant. -/
def ofChars? (cs : List Char) : Option Instant :=
  match readDate cs with
  | none => none
  | some (date, rest) =>
    match rest with
    | [] => none
    | c :: rest =>
      if c ≠ 't' ∧ c ≠ 'T' ∧ c ≠ ' ' then none
      else
        match readTime rest with
        | none => none
        | some (secondOfDay, nanos, rest) =>
          match readOffset (Text.skipBlank rest) with
          | none => none
          | some (offset, rest) =>
            if (Text.skipBlank rest).isEmpty then ofLocal? date secondOfDay nanos offset else none

/-- Reads the text of an instant. -/
def ofText? (text : String) : Option Instant := ofChars? text.toList

end LeaseLog.Instant
