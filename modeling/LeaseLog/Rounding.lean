/-!
# Rounding

Quotients of natural numbers rounded to the nearest whole number, or to the nearest number with so
many binary digits. A value halfway between two goes to the even one.
-/

namespace LeaseLog

/-- The quotient rounded to the nearest natural number, ties to even. -/
def divNearest (num den : Nat) : Nat :=
  let quotient := num / den
  let remainder := num % den
  if 2 * remainder < den then quotient
  else if den < 2 * remainder then quotient + 1
  else if quotient % 2 = 0 then quotient else quotient + 1

/-- The quotient rounded to the nearest natural number of at most `digits` binary digits before its
trailing zeros, ties to even. -/
def divSignificant (digits num den : Nat) : Nat :=
  let scale := Nat.pow 2 (Nat.log2 (num / den) + 1 - digits)
  divNearest num (den * scale) * scale

end LeaseLog
