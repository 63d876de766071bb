/-!
# Hexadecimal digits

Fixed-width lower-case hexadecimal, most significant digit first, and its reading in either case.
-/

namespace LeaseLog.Text

/-- The lower-case hexadecimal digit of a number below sixteen. -/
def hexDigit (value : Nat) : Char :=
  if value < 10 then Char.ofNat (48 + value) else Char.ofNat (87 + value)

/-- The value of a hexadecimal digit in either case. -/
def hexValue? (c : Char) : Option Nat :=
  let code := c.toNat
  if 48 ≤ code ∧ code ≤ 57 then some (code - 48)
  else if 97 ≤ code ∧ code ≤ 102 then some (code - 87)
  else if 65 ≤ code ∧ code ≤ 70 then some (code - 55)
  else none

/-- The last `width` hexadecimal digits of a number. -/
def hex : (width : Nat) → (value : Nat) → List Char
  | 0, _ => []
  | width + 1, value => hex width (value / 16) ++ [hexDigit (value % 16)]

/-- One more digit after the value read so far. -/
def hexStep (soFar : Option Nat) (c : Char) : Option Nat :=
  match soFar, hexValue? c with
  | some value, some digit => some (value * 16 + digit)
  | _, _ => none

/-- The number written by a list of hexadecimal digits. -/
def ofHex? (digits : List Char) : Option Nat :=
  digits.foldl hexStep (some 0)

theorem hex_length (width value : Nat) : (hex width value).length = width := by
  induction width generalizing value with
  | zero => rfl
  | succ width ih => simp [hex, ih]

end LeaseLog.Text
