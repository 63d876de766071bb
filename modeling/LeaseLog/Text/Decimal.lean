/-!
# Decimal numerals

Numerals without leading zeros, numerals padded with zeros to a width, and the reading of a run of
digits.
-/

namespace LeaseLog.Text

/-- Whether a character is one of the ten ASCII digits. -/
def isDigit (c : Char) : Bool := '0' ≤ c && c ≤ '9'

/-- The value of an ASCII digit. -/
def digitValue (c : Char) : Nat := c.toNat - 48

/-- The decimal digits of a number, most significant first, without leading zeros. -/
def decimal (value : Nat) : List Char := Nat.toDigits 10 value

/-- The numeral of an integer: a minus sign and the digits of its size. -/
def signedDecimal (value : Int) : List Char :=
  if value < 0 then '-' :: decimal value.natAbs else decimal value.natAbs

/-- The numeral of `value` with zeros in front up to `width` characters. -/
def padded (width value : Nat) : List Char :=
  let digits := decimal value
  List.replicate (width - digits.length) '0' ++ digits

/-- The number written by a list of digits. -/
def ofDigits (digits : List Char) : Nat :=
  digits.foldl (fun value c => value * 10 + digitValue c) 0

/-- The numeral of a number as text. -/
def decimalText (value : Nat) : String := String.ofList (decimal value)

end LeaseLog.Text
