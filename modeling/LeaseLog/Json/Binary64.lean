import LeaseLog.Rounding
import LeaseLog.Text.Decimal

/-!
# Binary floating point numbers

Finite numbers of the 64-bit binary format, by exact integer arithmetic: the nearest number to a
fraction, products and quotients, the number that a decimal numeral stands for, and the shortest
decimal that reads back.

A numeral is evaluated in three roundings at most: its significand is rounded to a binary number,
the power of ten is rounded to a binary number, and then one is multiplied or divided by the
other. The result can therefore differ from the nearest number in its last bit.
-/

namespace LeaseLog

/-- The number `mantissa * 2 ^ exponent`, or its negation. A mantissa has at most 53 bits, and
fewer than 53 only at the smallest exponent. -/
structure Binary64 where
  negative : Bool
  mantissa : Nat
  exponent : Int
deriving DecidableEq, Repr

namespace Binary64

/-- The exponent of the smallest numbers. -/
def minExponent : Int := -1074

/-- The exponent of the largest numbers. -/
def maxExponent : Int := 971

/-- Zero with a sign. -/
def zero (negative : Bool) : Binary64 := ⟨negative, 0, minExponent⟩

instance : Inhabited Binary64 := ⟨zero false⟩

/-- The fraction `num / den * 2 ^ exponent` as a numerator and a denominator. -/
def scaleTwo (num den : Nat) (exponent : Int) : Nat × Nat :=
  if 0 ≤ exponent then (num * Nat.pow 2 exponent.toNat, den)
  else (num, den * Nat.pow 2 (-exponent).toNat)

/-- The fraction rounded to a multiple of `2 ^ exponent`, unless that is too large. -/
def nearestAt (negative : Bool) (num den : Nat) (exponent : Int) : Option Binary64 :=
  let scaled := scaleTwo num den (-exponent)
  let mantissa := divNearest scaled.1 scaled.2
  let carried := mantissa = Nat.pow 2 53
  let exponent := if carried then exponent + 1 else exponent
  let mantissa := if carried then Nat.pow 2 52 else mantissa
  if maxExponent < exponent then none else some ⟨negative, mantissa, exponent⟩

/-- The exponent at which the fraction has 53 bits, or the smallest one. -/
def exponentOf (num den : Nat) : Int :=
  let guess : Int := (Nat.log2 num : Int) - (Nat.log2 den : Int) - 52
  let scaled := scaleTwo num den (-guess)
  max minExponent (if scaled.1 < scaled.2 * Nat.pow 2 52 then guess - 1 else guess)

/-- The number nearest to a fraction, ties to an even mantissa; `none` if it is too large. -/
def nearest (negative : Bool) (num den : Nat) : Option Binary64 :=
  if num = 0 then some (zero negative)
  else nearestAt negative num den (exponentOf num den)

/-- The rounded product. -/
def mul (a b : Binary64) : Option Binary64 :=
  let scaled := scaleTwo (a.mantissa * b.mantissa) 1 (a.exponent + b.exponent)
  nearest (a.negative != b.negative) scaled.1 scaled.2

/-- The rounded quotient. -/
def div (a b : Binary64) : Option Binary64 :=
  let scaled := scaleTwo a.mantissa b.mantissa (a.exponent - b.exponent)
  nearest (a.negative != b.negative) scaled.1 scaled.2

/-- The number nearest to a power of ten, for powers up to 308. -/
def tenPow (power : Nat) : Binary64 := (nearest false (Nat.pow 10 power) 1).getD (zero false)

/-- The number times a power of ten. Powers beyond 308 are applied 308 at a time; two such
divisions bring every significand of 64 bits to zero, so three steps are enough. -/
def scaleTen : (steps : Nat) → Binary64 → Int → Option Binary64
  | steps, number, power =>
    if power.natAbs ≤ 308 then
      if 0 ≤ power then number.mul (tenPow power.toNat)
      else number.div (tenPow power.natAbs)
    else if number.mantissa = 0 then some number
    else if 0 ≤ power then none
    else match steps with
      | 0 => some (zero number.negative)
      | steps + 1 =>
        match number.div (tenPow 308) with
        | none => none
        | some smaller => scaleTen steps smaller (power + 308)

/-- The number that `significand * 10 ^ power` stands for; `none` if it is too large. -/
def ofDecimal (negative : Bool) (significand : Nat) (power : Int) : Option Binary64 :=
  match nearest false significand 1 with
  | none => none
  | some number =>
    match scaleTen 3 number power with
    | none => none
    | some number => some { number with negative := negative }

/-! ## Shortest decimals -/

/-- A fraction together with the interval of fractions that round to it, all over one
denominator. The ends belong to the interval when the mantissa is even. -/
structure Neighbourhood where
  low : Nat
  value : Nat
  high : Nat
  den : Nat
  closed : Bool

/-- What rounds to a number that is not zero. Below a power of two the gap is half as wide. -/
def neighbourhood (number : Binary64) : Neighbourhood :=
  let narrow := number.mantissa = Nat.pow 2 52 ∧ minExponent < number.exponent
  let scaled := fun quarters => scaleTwo quarters 4 number.exponent
  { low := (scaled (4 * number.mantissa - if narrow then 1 else 2)).1
    value := (scaled (4 * number.mantissa)).1
    high := (scaled (4 * number.mantissa + 2)).1
    den := (scaled 1).2
    closed := number.mantissa % 2 = 0 }

namespace Neighbourhood

/-- The neighbourhood divided by a power of ten. -/
def divTen (n : Neighbourhood) (power : Int) : Neighbourhood :=
  if 0 ≤ power then { n with den := n.den * Nat.pow 10 power.toNat }
  else
    let factor := Nat.pow 10 power.natAbs
    { n with low := n.low * factor, value := n.value * factor, high := n.high * factor }

/-- Whether a natural number lies in the interval. -/
def contains (n : Neighbourhood) (digits : Nat) : Bool :=
  let scaled := digits * n.den
  if n.closed then n.low ≤ scaled && scaled ≤ n.high else n.low < scaled && scaled < n.high

/-- The neighbour of the value among the natural numbers that lies in the interval; of two the
nearer, and of two equally near the even one. -/
def pick? (n : Neighbourhood) : Option Nat :=
  let below := n.value / n.den
  let above := below + 1
  match n.contains below, n.contains above with
  | true, true => some (divNearest n.value n.den)
  | true, false => some below
  | false, true => some above
  | false, false => none

/-- So many places behind the decimal point that every number has a digit among them. -/
def places : Nat := 400

/-- How many digits stand before the decimal point; negative if zeros follow the point. -/
def magnitude (n : Neighbourhood) : Int :=
  ((Text.decimal (n.value * Nat.pow 10 places / n.den)).length : Int) - places

end Neighbourhood

/-- The first grid of `count`, `count + 1`, … digits on which the number has a neighbour that
reads back, as digits and a power of ten. -/
def shortestFrom (n : Neighbourhood) (magnitude : Int) : (left count : Nat) → Nat × Int
  | 0, count =>
    let power := magnitude - count
    let scaled := n.divTen power
    (divNearest scaled.value scaled.den, power)
  | left + 1, count =>
    let power := magnitude - count
    match (n.divTen power).pick? with
    | some digits => (digits, power)
    | none => shortestFrom n magnitude left (count + 1)

/-- Digits without trailing zeros, and the power of ten that makes up for them. -/
def trimZeros : (left : Nat) → Nat × Int → Nat × Int
  | 0, decimal => decimal
  | left + 1, (digits, power) =>
    if digits ≠ 0 ∧ digits % 10 = 0 then trimZeros left (digits / 10, power + 1)
    else (digits, power)

/-- The shortest decimal that reads back, as digits and a power of ten. -/
def shortest (number : Binary64) : Nat × Int :=
  let n := number.neighbourhood
  trimZeros 20 (shortestFrom n n.magnitude 16 1)

/-- Digits with a point after the first one, or alone. -/
def pointAfterFirst : List Char → List Char
  | [] => []
  | [digit] => [digit]
  | digit :: rest => digit :: '.' :: rest

/-- The power of ten of a numeral in scientific form: its sign, which is always written, and its
digits. -/
def exponentPart (power : Int) : List Char :=
  'e' :: (if power < 0 then '-' else '+') :: Text.decimal power.natAbs

/-- Digits times a power of ten as text: in positions when the point falls between five places
before the digits and sixteen places after their start, with an exponent otherwise. -/
def layout (digits : List Char) (power : Int) : List Char :=
  let point : Int := digits.length + power
  if 0 ≤ power ∧ point ≤ 16 then digits ++ List.replicate power.toNat '0' ++ ['.', '0']
  else if 0 < point ∧ point ≤ 16 then
    digits.take point.toNat ++ '.' :: digits.drop point.toNat
  else if -5 < point ∧ point ≤ 0 then
    '0' :: '.' :: List.replicate point.natAbs '0' ++ digits
  else pointAfterFirst digits ++ exponentPart (point - 1)

/-- The text of a number: a sign, and the shortest decimal that reads back. -/
def toChars (number : Binary64) : List Char :=
  let unsigned :=
    if number.mantissa = 0 then ['0', '.', '0']
    else
      let decimal := number.shortest
      layout (Text.decimal decimal.1) decimal.2
  if number.negative then '-' :: unsigned else unsigned

end Binary64

end LeaseLog
