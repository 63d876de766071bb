import LeaseLog.Text.Decimal
import LeaseLog.Text.Hex
import Mathlib.Data.Nat.Digits.Lemmas

/-!
# Numerals read back

What is known of written numerals: they consist of digits, they start with zero only if they are
zero, and they stand for the number that they were written for. A run of digits ends where the text
behind it stops it.

Results:
1. `ofDigits_decimal`, `ofDigits_padded`: a decimal numeral stands for its number.
2. `ofHex?_hex`: a hexadecimal numeral stands for its number, modulo what its width can hold.
-/

namespace LeaseLog.Text

/-! ## Definitions -/

/-- The text does not start with a character of a sort. -/
def Stops (p : Char → Bool) (cs : List Char) : Prop := ∀ c ∈ cs.head?, p c = false

@[simp] theorem stops_nil (p : Char → Bool) : Stops p [] := by simp [Stops]

@[simp] theorem stops_cons {p : Char → Bool} {c : Char} {cs : List Char} :
    Stops p (c :: cs) ↔ p c = false := by simp [Stops]

theorem takeWhile_append_stops {p : Char → Bool} {run rest : List Char} (h : ∀ c ∈ run, p c = true)
    (hrest : Stops p rest) : (run ++ rest).takeWhile p = run := by
  rw [List.takeWhile_append_of_pos h]
  cases rest with
  | nil => simp
  | cons c rest => simp [stops_cons.mp hrest]

theorem dropWhile_append_stops {p : Char → Bool} {run rest : List Char} (h : ∀ c ∈ run, p c = true)
    (hrest : Stops p rest) : (run ++ rest).dropWhile p = rest := by
  rw [List.dropWhile_append_of_pos h]
  cases rest with
  | nil => simp
  | cons c rest => simp [stops_cons.mp hrest]

/-! ## 1. Decimal numerals -/

theorem isDigit_iff {c : Char} : isDigit c = true ↔ 48 ≤ c.toNat ∧ c.toNat ≤ 57 := by
  simp only [isDigit, Bool.and_eq_true, decide_eq_true_eq, Char.le_def, UInt32.le_iff_toNat_le]
  rfl

theorem isDigit_eq (c : Char) : isDigit c = c.isDigit := by
  simp only [isDigit, Char.isDigit, ge_iff_le, Char.le_def]

theorem ofDigits_eq_ofDigitChars (digits : List Char) :
    ofDigits digits = Nat.ofDigitChars 10 digits 0 := by
  simp only [ofDigits, Nat.ofDigitChars, digitValue, Nat.mul_comm 10]
  rfl

theorem ofDigits_append (a b : List Char) :
    ofDigits (a ++ b) = ofDigits a * 10 ^ b.length + ofDigits b := by
  simp only [ofDigits_eq_ofDigitChars, Nat.ofDigitChars_append]
  rw [Nat.ofDigitChars_eq_ofDigitChars_zero, Nat.mul_comm]

@[simp] theorem ofDigits_nil : ofDigits [] = 0 := rfl

theorem ofDigits_singleton (c : Char) : ofDigits [c] = digitValue c := by simp [ofDigits]

@[simp] theorem ofDigits_replicate_zero (count : Nat) :
    ofDigits (List.replicate count '0') = 0 := by
  simp [ofDigits_eq_ofDigitChars]

@[simp] theorem ofDigits_decimal (value : Nat) : ofDigits (decimal value) = value := by
  rw [ofDigits_eq_ofDigitChars, decimal, Nat.ofDigitChars_ten_toDigits]

@[simp] theorem ofDigits_padded (width value : Nat) : ofDigits (padded width value) = value := by
  simp [padded, ofDigits_append]

theorem decimal_ne_nil (value : Nat) : decimal value ≠ [] := Nat.toDigits_ne_nil

theorem isDigit_of_mem_decimal {value : Nat} {c : Char} (h : c ∈ decimal value) :
    isDigit c = true := by
  rw [isDigit_eq]
  exact Nat.isDigit_of_mem_toDigits (by decide) (by decide) h

theorem isDigit_of_mem_replicate {count : Nat} {c : Char} (h : c ∈ List.replicate count '0') :
    isDigit c = true := by
  rw [(List.mem_replicate.mp h).2]
  rfl

theorem isDigit_of_mem_padded {width value : Nat} {c : Char} (h : c ∈ padded width value) :
    isDigit c = true := by
  simp only [padded, List.mem_append] at h
  exact h.elim isDigit_of_mem_replicate isDigit_of_mem_decimal

theorem length_decimal_le_iff {value width : Nat} (h : 0 < width) :
    (decimal value).length ≤ width ↔ value < 10 ^ width :=
  Nat.length_toDigits_le_iff (by decide) h

theorem length_decimal_pos (value : Nat) : 0 < (decimal value).length :=
  List.length_pos_iff.mpr (decimal_ne_nil value)

/-- A numeral has as many digits as the power of ten above it. -/
theorem ten_pow_le_of_pos {value : Nat} (h : 0 < value) :
    10 ^ ((decimal value).length - 1) ≤ value := by
  by_contra hlt
  have hpos := length_decimal_pos value
  rcases Nat.eq_zero_or_pos ((decimal value).length - 1) with hzero | hlonger
  · rw [hzero] at hlt
    omega
  · have := (length_decimal_le_iff hlonger).mpr (Nat.lt_of_not_le hlt)
    omega

theorem lt_ten_pow_length (value : Nat) : value < 10 ^ (decimal value).length :=
  (length_decimal_le_iff (length_decimal_pos value)).mp (Nat.le_refl _)

theorem length_padded {width value : Nat} (hw : 0 < width) (h : value < 10 ^ width) :
    (padded width value).length = width := by
  have := (length_decimal_le_iff hw).mpr h
  simp only [padded, List.length_append, List.length_replicate]
  omega

theorem padded_ne_nil (width value : Nat) : padded width value ≠ [] := by
  simp [padded, decimal_ne_nil]

theorem decimal_eq (value : Nat) :
    decimal value =
      if value < 10 then [Nat.digitChar value]
      else decimal (value / 10) ++ [Nat.digitChar (value % 10)] :=
  Nat.toDigits_eq_if (by decide)

/-- Only zero starts with a zero. -/
theorem decimal_eq_cons {value : Nat} (h : value ≠ 0) :
    ∃ c rest, decimal value = c :: rest ∧ c ≠ '0' ∧ isDigit c = true := by
  -- a longer numeral starts like that of its quotient by ten
  induction value using Nat.strong_induction_on with
  | _ value ih =>
    by_cases hsmall : value < 10
    · refine ⟨Nat.digitChar value, [], by rw [decimal_eq, if_pos hsmall], ?_⟩
      interval_cases value <;> first | omega | decide
    · obtain ⟨c, rest, heq, hc⟩ := ih (value / 10) (by omega) (by omega)
      exact ⟨c, rest ++ [Nat.digitChar (value % 10)], by
        rw [decimal_eq, if_neg hsmall, heq, List.cons_append], hc⟩

theorem decimal_zero : decimal 0 = ['0'] := rfl

/-! ## 2. Hexadecimal numerals -/

theorem hexValue?_hexDigit {value : Nat} (h : value < 16) :
    hexValue? (hexDigit value) = some value := by
  interval_cases value <;> decide

theorem ofHex?_append_singleton (digits : List Char) (c : Char) :
    ofHex? (digits ++ [c]) = hexStep (ofHex? digits) c := by
  simp [ofHex?]

theorem ofHex?_hex (width value : Nat) :
    ofHex? (hex width value) = some (value % 16 ^ width) := by
  induction width generalizing value with
  | zero => simp [hex, ofHex?, Nat.mod_one]
  | succ width ih =>
    rw [hex, ofHex?_append_singleton, ih]
    simp only [hexStep, hexValue?_hexDigit (Nat.mod_lt value (by decide : 16 > 0))]
    rw [Nat.pow_succ, Nat.mul_comm (16 ^ width) 16, Nat.mod_mul]
    congr 1
    omega

end LeaseLog.Text
