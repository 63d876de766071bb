import LeaseLog.Json.Binary64

/-!
# Numbers of JSON texts

A numeral without fraction and exponent is an exact integer as long as it fits 64 bits, signed or
unsigned; every other numeral, and a negative zero, is a binary floating point number.
-/

namespace LeaseLog

/-- A number: an exact 64-bit integer or a floating point number. -/
inductive Number
  | integer (value : Int)
  | real (value : Binary64)
deriving DecidableEq, Repr

/-- A numeral, cut into its parts. The digits of a fraction or an exponent are empty when the
part is missing. -/
structure Numeral where
  negative : Bool
  whole : List Char
  fraction : List Char
  exponent : Option (Bool × List Char)
deriving DecidableEq, Repr

namespace Number

/-- The largest unsigned 64-bit integer. -/
def maxUnsigned : Nat := Nat.pow 2 64 - 1

/-- The largest power of ten that an exponent can name. -/
def maxExponent : Nat := Nat.pow 2 31 - 1

/-- Appends digits to a significand for as long as it fits 64 bits, and returns it with the
digits that are left. -/
def extend : Nat → List Char → Nat × List Char
  | significand, [] => (significand, [])
  | significand, c :: digits =>
    let longer := significand * 10 + Text.digitValue c
    if longer ≤ maxUnsigned then extend longer digits else (significand, c :: digits)

/-- The floating point number of a significand and its power of ten under a written exponent. An
exponent that is out of range makes the number zero, or too large if it is positive and the
significand is not zero. -/
def scaled (negative : Bool) (significand : Nat) (power : Int) :
    Option (Bool × List Char) → Option Number
  | none => (Binary64.ofDecimal negative significand power).map .real
  | some (down, digits) =>
    let size := Text.ofDigits digits
    if maxExponent < size then
      if significand ≠ 0 ∧ !down then none else some (.real (Binary64.zero negative))
    else
      let power := if down then power - size else power + size
      (Binary64.ofDecimal negative significand power).map .real

/-- The integer of a numeral whose digits fit 64 bits. A negative number that does not fit the
signed range, or is zero, becomes a floating point number. -/
def ofWhole (negative : Bool) (size : Nat) : Option Number :=
  if !negative then some (.integer size)
  else if size = 0 ∨ Nat.pow 2 63 < size then (Binary64.ofDecimal true size 0).map .real
  else some (.integer (-(size : Int)))

/-- The number that a numeral stands for; `none` if it is too large. -/
def ofNumeral (numeral : Numeral) : Option Number :=
  let whole := extend 0 numeral.whole
  if whole.2 = [] ∧ numeral.fraction = [] ∧ numeral.exponent = none then
    ofWhole numeral.negative whole.1
  else
    let fraction := extend whole.1 numeral.fraction
    let places : Int := numeral.fraction.length - fraction.2.length
    scaled numeral.negative fraction.1 (whole.2.length - places) numeral.exponent

/-- The text of a number. -/
def toChars : Number → List Char
  | .integer value => Text.signedDecimal value
  | .real value => value.toChars

end Number

end LeaseLog
