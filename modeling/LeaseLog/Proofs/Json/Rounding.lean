import LeaseLog.Json.Binary64
import Mathlib.Algebra.Order.Field.Power
import Mathlib.Data.Rat.Cast.Order
import Mathlib.Tactic.FieldSimp
import Mathlib.Tactic.GCongr
import Mathlib.Tactic.Linarith
import Mathlib.Tactic.NormNum
import Mathlib.Tactic.Positivity
import Mathlib.Tactic.Ring

/-!
# Rounding to binary floating point

Rounding keeps what lies between two numbers of the format between them, and it fails only for what
lies at least halfway between the largest number and the power of two above it. Sizes are compared
as fractions, without signs.

Results:
1. `exists_rounding`: what the nearest number to a fraction is.
2. `nearest_isSome`, `Finite.of_nearest`: when there is one, and what it looks like.
3. `nearest_size_le`, `le_nearest_size`: a rounded fraction passes no number of the format.
-/

namespace LeaseLog

/-! ## Rounded quotients -/

section

variable {num den bound : Nat}

theorem divNearest_le (h : num ≤ bound * den) (hden : 0 < den) : divNearest num den ≤ bound := by
  have hquotient : num / den ≤ bound := Nat.div_le_of_le_mul (by rwa [Nat.mul_comm])
  rcases Nat.lt_or_ge (num / den) bound with hlt | hge
  · unfold divNearest
    dsimp only
    split
    · exact hquotient
    · split
      · exact hlt
      · split
        · exact hquotient
        · exact hlt
  · have heq : num / den = bound := by omega
    have hexact : num % den = 0 := by
      have := Nat.div_add_mod num den
      rw [heq, Nat.mul_comm] at this
      omega
    rw [divNearest]
    simp [hexact, hden, heq]

theorem le_divNearest (h : bound * den ≤ num) (hden : 0 < den) : bound ≤ divNearest num den := by
  have hquotient : bound ≤ num / den := (Nat.le_div_iff_mul_le hden).mpr h
  unfold divNearest
  dsimp only
  split
  · exact hquotient
  · split
    · omega
    · split <;> omega

/-- Less than half above a number is rounded down to it. -/
theorem divNearest_le_of_lt_half (h : 2 * num < (2 * bound + 1) * den) (hden : 0 < den) :
    divNearest num den ≤ bound := by
  have hsplit := Nat.div_add_mod num den
  have hquotient : num / den ≤ bound := by
    refine Nat.lt_succ_iff.mp ((Nat.div_lt_iff_lt_mul hden).mpr ?_)
    nlinarith
  rcases Nat.lt_or_ge (num / den) bound with hlt | hge
  · unfold divNearest
    dsimp only
    split
    · exact hquotient
    · split
      · exact hlt
      · split <;> omega
  · have heq : num / den = bound := by omega
    have hremainder : 2 * (num % den) < den := by
      rw [heq] at hsplit
      nlinarith
    rw [divNearest]
    simp [hremainder, heq]

/-- A rounded quotient is at most half too large. -/
theorem divNearest_mul_le (hden : 0 < den) :
    2 * (divNearest num den * den) ≤ 2 * num + den := by
  have hsplit := Nat.div_add_mod num den
  have hup : (num / den + 1) * den = den * (num / den) + den := by ring
  have hdown : num / den * den = den * (num / den) := by ring
  unfold divNearest
  dsimp only
  split
  · omega
  · split
    · omega
    · split <;> omega

end

namespace Binary64

/-! ## Definitions -/

/-- The size of a number. -/
def size (number : Binary64) : ℚ := number.mantissa * 2 ^ number.exponent

/-- What the numbers of the format look like. -/
structure Finite (number : Binary64) : Prop where
  mantissa_lt : number.mantissa < 2 ^ 53
  minExponent_le : minExponent ≤ number.exponent
  exponent_le : number.exponent ≤ maxExponent

/-- Halfway between the largest number and the power of two above it. -/
def limit : ℚ := (2 ^ 54 - 1) * 2 ^ (970 : Int)

/-- The mantissa and the exponent to which a size is rounded. The mantissa may have one bit too
many. -/
structure Rounding (value : ℚ) (mantissa : Nat) (exponent : Int) : Prop where
  minExponent_le : minExponent ≤ exponent
  scaled_lt : value * 2 ^ (-exponent) < 2 ^ 53
  le_scaled : minExponent < exponent → 2 ^ 52 ≤ value * 2 ^ (-exponent)
  le_of_scaled_le : ∀ bound : Nat, value * 2 ^ (-exponent) ≤ bound → mantissa ≤ bound
  le_of_le_scaled : ∀ bound : Nat, bound ≤ value * 2 ^ (-exponent) → bound ≤ mantissa
  le_of_scaled_lt : ∀ bound : Nat, 2 * (value * 2 ^ (-exponent)) < 2 * bound + 1 → mantissa ≤ bound

/-- The number of a mantissa that may have one bit too many. -/
def carry (negative : Bool) (mantissa : Nat) (exponent : Int) : Option Binary64 :=
  if mantissa = 2 ^ 53 then
    if maxExponent < exponent + 1 then none else some ⟨negative, 2 ^ 52, exponent + 1⟩
  else if maxExponent < exponent then none else some ⟨negative, mantissa, exponent⟩

/-! ## 1. Rounding -/

theorem scaleTwo_den_pos {num den : Nat} (hden : 0 < den) (exponent : Int) :
    0 < (scaleTwo num den exponent).2 := by
  unfold scaleTwo
  split
  · exact hden
  · exact Nat.mul_pos hden (Nat.pow_pos (by decide))

theorem scaleTwo_div (num den : Nat) (exponent : Int) :
    ((scaleTwo num den exponent).1 : ℚ) / (scaleTwo num den exponent).2 =
      num / den * 2 ^ exponent := by
  unfold scaleTwo
  split
  · rename_i h
    obtain ⟨power, rfl⟩ := Int.eq_ofNat_of_zero_le h
    simp only [Int.toNat_natCast, Nat.pow_eq, Nat.cast_mul, Nat.cast_pow, Nat.cast_ofNat,
      zpow_natCast]
    ring
  · rename_i h
    obtain ⟨power, hpower⟩ := Int.eq_ofNat_of_zero_le (show 0 ≤ -exponent by omega)
    obtain rfl : exponent = -(power : Int) := by omega
    simp only [neg_neg, Int.toNat_natCast, Nat.pow_eq, Nat.cast_mul, Nat.cast_pow,
      Nat.cast_ofNat, zpow_neg, zpow_natCast, div_mul_eq_div_div]
    rfl

/-- A fraction lies between the powers of two that the lengths of its parts give. -/
theorem div_bounds {num den : Nat} (hnum : 0 < num) (hden : 0 < den) :
    (2 : ℚ) ^ ((num.log2 : Int) - den.log2 - 1) ≤ num / den ∧
      (num : ℚ) / den < 2 ^ ((num.log2 : Int) - den.log2 + 1) := by
  have hd : (0 : ℚ) < den := by exact_mod_cast hden
  have hlow : ((2 : ℚ) ^ num.log2) ≤ num := by exact_mod_cast Nat.log2_self_le hnum.ne'
  have hhigh : (num : ℚ) < 2 ^ (num.log2 + 1) := by exact_mod_cast Nat.lt_log2_self
  have hdlow : ((2 : ℚ) ^ den.log2) ≤ den := by exact_mod_cast Nat.log2_self_le hden.ne'
  have hdhigh : (den : ℚ) < 2 ^ (den.log2 + 1) := by exact_mod_cast Nat.lt_log2_self
  constructor
  · rw [le_div_iff₀ hd]
    calc (2 : ℚ) ^ ((num.log2 : Int) - den.log2 - 1) * den
        ≤ 2 ^ ((num.log2 : Int) - den.log2 - 1) * 2 ^ (den.log2 + 1) := by gcongr
      _ = 2 ^ num.log2 := by
        rw [← zpow_natCast, ← zpow_natCast, ← zpow_add₀ (by norm_num)]
        congr 1
        push_cast
        ring
      _ ≤ num := hlow
  · rw [div_lt_iff₀ hd]
    calc (num : ℚ) < 2 ^ (num.log2 + 1) := hhigh
      _ = 2 ^ ((num.log2 : Int) - den.log2 + 1) * 2 ^ den.log2 := by
        rw [← zpow_natCast, ← zpow_natCast, ← zpow_add₀ (by norm_num)]
        congr 1
        push_cast
        ring
      _ ≤ 2 ^ ((num.log2 : Int) - den.log2 + 1) * den := by gcongr

theorem scaleTwo_lt_iff {num den : Nat} (hden : 0 < den) (exponent : Int) (bits : Nat) :
    (scaleTwo num den exponent).1 < (scaleTwo num den exponent).2 * 2 ^ bits ↔
      (num : ℚ) / den * 2 ^ exponent < 2 ^ bits := by
  have hpos : (0 : ℚ) < (scaleTwo num den exponent).2 := by
    exact_mod_cast scaleTwo_den_pos hden exponent
  rw [← scaleTwo_div, div_lt_iff₀ hpos, mul_comm ((2 : ℚ) ^ bits)]
  exact_mod_cast Iff.rfl

/-- The exponent leaves 53 bits to the mantissa, or fewer if it is the smallest one. -/
theorem exponentOf_spec {num den : Nat} (hnum : 0 < num) (hden : 0 < den) :
    minExponent ≤ exponentOf num den ∧
      (num : ℚ) / den * 2 ^ (-exponentOf num den) < 2 ^ 53 ∧
      (minExponent < exponentOf num den →
        2 ^ 52 ≤ (num : ℚ) / den * 2 ^ (-exponentOf num den)) := by
  obtain ⟨hlow, hhigh⟩ := div_bounds hnum hden
  have hpos : (0 : ℚ) < num / den := lt_of_lt_of_le (by positivity) hlow
  simp only [exponentOf, Nat.pow_eq, scaleTwo_lt_iff hden]
  generalize (num : ℚ) / den = value at *
  generalize hg : (num.log2 : Int) - den.log2 - 52 = guess at *
  have hscaledLow : 2 ^ 51 ≤ value * 2 ^ (-guess) := by
    calc (2 : ℚ) ^ 51 = 2 ^ ((num.log2 : Int) - den.log2 - 1) * 2 ^ (-guess) := by
          rw [← zpow_add₀ (by norm_num), ← zpow_natCast]
          congr 1
          push_cast
          omega
      _ ≤ value * 2 ^ (-guess) := by gcongr
  have hscaledHigh : value * 2 ^ (-guess) < 2 ^ 53 := by
    calc value * 2 ^ (-guess)
        < 2 ^ ((num.log2 : Int) - den.log2 + 1) * 2 ^ (-guess) := by gcongr
      _ = 2 ^ 53 := by
          rw [← zpow_add₀ (by norm_num), ← zpow_natCast]
          congr 1
          push_cast
          omega
  have hshift : value * 2 ^ (-(guess - 1)) = 2 * (value * 2 ^ (-guess)) := by
    rw [show -(guess - 1) = -guess + 1 by ring, zpow_add_one₀ (by norm_num)]
    ring
  -- The exact exponent, before the smallest one cuts it off.
  obtain ⟨exact, hexact, hlt, hle⟩ : ∃ exact,
      (if value * 2 ^ (-guess) < 2 ^ 52 then guess - 1 else guess) = exact ∧
        value * 2 ^ (-exact) < 2 ^ 53 ∧ 2 ^ 52 ≤ value * 2 ^ (-exact) := by
    refine ⟨_, rfl, ?_⟩
    split
    · rw [hshift]
      constructor <;> linarith
    · exact ⟨hscaledHigh, by linarith⟩
  rw [hexact]
  refine ⟨le_max_left _ _, ?_, fun hgt => ?_⟩
  · refine lt_of_le_of_lt ?_ hlt
    have : -max minExponent exact ≤ -exact := by omega
    gcongr
    norm_num
  · have : max minExponent exact = exact := by omega
    rw [this]
    exact hle

/-- The nearest number to a fraction is the one to which it is rounded. -/
theorem exists_rounding (negative : Bool) {num den : Nat} (hnum : 0 < num) (hden : 0 < den) :
    ∃ mantissa exponent, Rounding ((num : ℚ) / den) mantissa exponent ∧
      nearest negative num den = carry negative mantissa exponent := by
  obtain ⟨hmin, hlt, hle⟩ := exponentOf_spec hnum hden
  generalize hexp : exponentOf num den = exponent at *
  generalize hscaled : scaleTwo num den (-exponent) = scaled
  have hscaledDen : 0 < scaled.2 := hscaled ▸ scaleTwo_den_pos hden (-exponent)
  have hscaledPos : (0 : ℚ) < scaled.2 := by exact_mod_cast hscaledDen
  have hvalue : (num : ℚ) / den * 2 ^ (-exponent) = scaled.1 / scaled.2 := by
    rw [← hscaled, scaleTwo_div]
  refine ⟨divNearest scaled.1 scaled.2, exponent, ⟨hmin, hlt, hle, ?_, ?_, ?_⟩, ?_⟩
  · intro bound hbound
    rw [hvalue, div_le_iff₀ hscaledPos] at hbound
    exact divNearest_le (by exact_mod_cast hbound) hscaledDen
  · intro bound hbound
    rw [hvalue, le_div_iff₀ hscaledPos] at hbound
    exact le_divNearest (by exact_mod_cast hbound) hscaledDen
  · intro bound hbound
    rw [hvalue, ← mul_div_assoc, div_lt_iff₀ hscaledPos] at hbound
    exact divNearest_le_of_lt_half (by exact_mod_cast hbound) hscaledDen
  · rw [nearest, if_neg hnum.ne', hexp, nearestAt, hscaled, carry]
    simp only [Nat.pow_eq]
    split <;> simp_all

namespace Rounding

variable {value : ℚ} {mantissa bound : Nat} {exponent power : Int} {negative : Bool}
  {number : Binary64}

theorem mantissa_le (h : Rounding value mantissa exponent) : mantissa ≤ 2 ^ 53 :=
  h.le_of_scaled_le _ (by exact_mod_cast h.scaled_lt.le)

/-- A carry changes the form of a number and not its size. -/
theorem size_carry (hcarry : carry negative mantissa exponent = some number) :
    number.size = mantissa * 2 ^ exponent := by
  unfold carry at hcarry
  split at hcarry
  · split at hcarry
    · cases hcarry
    · cases hcarry
      rename_i hfull _
      simp only [size, hfull, zpow_add_one₀ (by norm_num : (2 : ℚ) ≠ 0)]
      push_cast
      ring
  · split at hcarry
    · cases hcarry
    · cases hcarry
      rfl

theorem finite_carry (h : Rounding value mantissa exponent)
    (hcarry : carry negative mantissa exponent = some number) : number.Finite := by
  have hmin := h.minExponent_le
  have hmantissa := h.mantissa_le
  unfold carry at hcarry
  split at hcarry
  · split at hcarry
    · cases hcarry
    · cases hcarry
      exact ⟨by norm_num, by dsimp only; omega, by dsimp only; omega⟩
  · split at hcarry
    · cases hcarry
    · cases hcarry
      exact ⟨by dsimp only; omega, hmin, by dsimp only; omega⟩

theorem scaled_mul (value : ℚ) (exponent : Int) :
    value * 2 ^ (-exponent) * 2 ^ exponent = value := by
  rw [mul_assoc, ← zpow_add₀ (by norm_num), neg_add_cancel, zpow_zero, mul_one]

theorem limit_mul (power : Int) : limit * 2 ^ power = (2 ^ 54 - 1) * 2 ^ (970 + power) := by
  rw [limit, mul_assoc, zpow_add₀ (by norm_num)]

/-- Below the limit, rounding succeeds. -/
theorem carry_isSome (h : Rounding value mantissa exponent) (hvalue : value < limit)
    (negative : Bool) : ∃ number, carry negative mantissa exponent = some number := by
  unfold carry
  rcases lt_or_ge exponent maxExponent with hsmall | hlarge
  · have hnext : ¬maxExponent < exponent + 1 := by omega
    have hthis : ¬maxExponent < exponent := by omega
    rw [if_neg hnext, if_neg hthis]
    split <;> exact ⟨_, rfl⟩
  · -- The largest exponent leaves room for less than a full carry.
    have hle := h.le_scaled (by unfold minExponent; unfold maxExponent at hlarge; omega)
    have htop : exponent = maxExponent := by
      by_contra hne
      have hgt : (972 : Int) ≤ exponent := by
        unfold maxExponent at *
        omega
      have hscaled : value * 2 ^ (-exponent) < 2 ^ 52 := by
        calc value * 2 ^ (-exponent) < limit * 2 ^ (-exponent) := by gcongr
          _ = (2 ^ 54 - 1) * 2 ^ (970 + -exponent) := limit_mul _
          _ ≤ (2 ^ 54 - 1) * 2 ^ (-2 : Int) := by
            have : 970 + -exponent ≤ -2 := by omega
            gcongr
            norm_num
          _ < 2 ^ 52 := by norm_num
      linarith
    have hmantissa : mantissa ≤ 2 ^ 53 - 1 := by
      refine h.le_of_scaled_lt _ ?_
      rw [htop]
      calc 2 * (value * 2 ^ (-maxExponent)) < 2 * (limit * 2 ^ (-maxExponent)) := by gcongr
        _ = 2 * ((2 ^ 53 - 1 : Nat) : ℚ) + 1 := by
          rw [limit_mul, maxExponent]
          norm_num
    rw [if_neg (by omega), if_neg (by omega)]
    exact ⟨_, rfl⟩

/-- Numbers with few bits are multiples of the last place, or small enough to be passed. -/
theorem pow_le_of_lt (hbound : bound ≤ 2 ^ 53) (hfine : power < exponent) :
    (bound * 2 ^ power : ℚ) ≤ 2 ^ 52 * 2 ^ exponent := by
  calc (bound * 2 ^ power : ℚ) ≤ 2 ^ 53 * 2 ^ (exponent - 1) := by
        have : (bound : ℚ) ≤ 2 ^ 53 := by exact_mod_cast hbound
        have : power ≤ exponent - 1 := by omega
        gcongr
        norm_num
    _ = 2 ^ 52 * 2 ^ exponent := by
        rw [zpow_sub_one₀ (by norm_num)]
        ring

theorem scaled_pow (bound gap : Nat) (exponent : Int) :
    (bound * 2 ^ (exponent + gap) * 2 ^ (-exponent) : ℚ) = ((bound * 2 ^ gap : Nat) : ℚ) := by
  rw [mul_assoc, ← zpow_add₀ (by norm_num), add_neg_cancel_comm, zpow_natCast]
  push_cast
  rfl

/-- A size that does not exceed a number of the format is rounded to one that does not either. -/
theorem size_le (h : Rounding value mantissa exponent) (hbound : bound ≤ 2 ^ 53)
    (hpower : minExponent ≤ power) (hle : value ≤ bound * 2 ^ power) :
    (mantissa * 2 ^ exponent : ℚ) ≤ bound * 2 ^ power := by
  rcases lt_or_ge power exponent with hfine | hcoarse
  · have hlow := h.le_scaled (by omega)
    have hhigh : value * 2 ^ (-exponent) ≤ ((2 ^ 52 : Nat) : ℚ) := by
      calc value * 2 ^ (-exponent) ≤ 2 ^ 52 * 2 ^ exponent * 2 ^ (-exponent) := by
            have := hle.trans (pow_le_of_lt hbound hfine)
            gcongr
        _ = ((2 ^ 52 : Nat) : ℚ) := by
            rw [mul_assoc, ← zpow_add₀ (by norm_num), add_neg_cancel, zpow_zero, mul_one]
            norm_cast
    have hmantissa : (mantissa : ℚ) ≤ 2 ^ 52 := by exact_mod_cast h.le_of_scaled_le _ hhigh
    calc (mantissa * 2 ^ exponent : ℚ) ≤ value * 2 ^ (-exponent) * 2 ^ exponent := by
          have := hmantissa.trans hlow
          gcongr
      _ = value := scaled_mul value exponent
      _ ≤ bound * 2 ^ power := hle
  · obtain ⟨gap, rfl⟩ : ∃ gap : Nat, power = exponent + gap := ⟨(power - exponent).toNat, by omega⟩
    have hscaled : value * 2 ^ (-exponent) ≤ ((bound * 2 ^ gap : Nat) : ℚ) := by
      rw [← scaled_pow]
      gcongr
    calc (mantissa * 2 ^ exponent : ℚ) ≤ ((bound * 2 ^ gap : Nat) : ℚ) * 2 ^ exponent := by
          have := h.le_of_scaled_le _ hscaled
          gcongr
      _ = bound * 2 ^ (exponent + gap) := by rw [← scaled_pow bound gap exponent, scaled_mul]

/-- A size that is not exceeded by a number of the format is rounded to one that is not either. -/
theorem le_size (h : Rounding value mantissa exponent) (hbound : bound ≤ 2 ^ 53)
    (hpower : minExponent ≤ power) (hle : bound * 2 ^ power ≤ value) :
    (bound * 2 ^ power : ℚ) ≤ mantissa * 2 ^ exponent := by
  rcases lt_or_ge power exponent with hfine | hcoarse
  · have hlow : ((2 ^ 52 : Nat) : ℚ) ≤ value * 2 ^ (-exponent) := by
      exact_mod_cast h.le_scaled (by omega)
    have hmantissa : (2 ^ 52 : ℚ) ≤ mantissa := by exact_mod_cast h.le_of_le_scaled _ hlow
    calc (bound * 2 ^ power : ℚ) ≤ 2 ^ 52 * 2 ^ exponent := pow_le_of_lt hbound hfine
      _ ≤ mantissa * 2 ^ exponent := by gcongr
  · obtain ⟨gap, rfl⟩ : ∃ gap : Nat, power = exponent + gap := ⟨(power - exponent).toNat, by omega⟩
    have hscaled : ((bound * 2 ^ gap : Nat) : ℚ) ≤ value * 2 ^ (-exponent) := by
      rw [← scaled_pow]
      gcongr
    calc (bound * 2 ^ (exponent + gap) : ℚ) = ((bound * 2 ^ gap : Nat) : ℚ) * 2 ^ exponent := by
          rw [← scaled_pow bound gap exponent, scaled_mul]
      _ ≤ mantissa * 2 ^ exponent := by
          have := h.le_of_le_scaled _ hscaled
          gcongr

end Rounding

/-! ## 2. Numbers near fractions -/

theorem Finite.zero (negative : Bool) : (zero negative).Finite :=
  ⟨by norm_num [Binary64.zero], by norm_num [Binary64.zero],
    by norm_num [Binary64.zero, minExponent, maxExponent]⟩

theorem size_zero (negative : Bool) : (zero negative).size = 0 := by simp [size, zero]

theorem size_nonneg (number : Binary64) : 0 ≤ number.size := by
  unfold size
  positivity

theorem Finite.size_lt_limit {number : Binary64} (h : number.Finite) : number.size < limit := by
  have hmantissa : (number.mantissa : ℚ) ≤ 2 ^ 53 - 1 := by
    have := h.mantissa_lt
    rw [le_sub_iff_add_le]
    exact_mod_cast this
  calc number.size ≤ (2 ^ 53 - 1) * 2 ^ maxExponent := by
        have := h.exponent_le
        unfold size
        gcongr
        norm_num
    _ < limit := by
        rw [limit, maxExponent, show (971 : Int) = 970 + 1 from rfl, zpow_add_one₀ (by norm_num)]
        have hunit : (0 : ℚ) < 2 ^ (970 : Int) := by positivity
        generalize (2 : ℚ) ^ (970 : Int) = unit at hunit ⊢
        linarith

variable {num den bound : Nat} {power : Int} {negative : Bool} {number : Binary64}

theorem nearest_zero (negative : Bool) (den : Nat) :
    nearest negative 0 den = some (zero negative) :=
  if_pos rfl

/-- A fraction below the limit has a nearest number. -/
theorem nearest_isSome (negative : Bool) (hden : 0 < den) (h : (num : ℚ) / den < limit) :
    ∃ number, nearest negative num den = some number := by
  rcases Nat.eq_zero_or_pos num with rfl | hnum
  · exact ⟨_, nearest_zero negative den⟩
  · obtain ⟨mantissa, exponent, hround, heq⟩ := exists_rounding negative hnum hden
    rw [heq]
    exact hround.carry_isSome h negative

theorem Finite.of_nearest (hden : 0 < den) (h : nearest negative num den = some number) :
    number.Finite := by
  rcases Nat.eq_zero_or_pos num with rfl | hnum
  · rw [nearest_zero, Option.some.injEq] at h
    exact h ▸ Finite.zero negative
  · obtain ⟨mantissa, exponent, hround, heq⟩ := exists_rounding negative hnum hden
    exact hround.finite_carry (heq ▸ h)

/-! ## 3. Bounds -/

theorem nearest_size_le (hden : 0 < den) (h : nearest negative num den = some number)
    (hbound : bound ≤ 2 ^ 53) (hpower : minExponent ≤ power)
    (hle : (num : ℚ) / den ≤ bound * 2 ^ power) : number.size ≤ bound * 2 ^ power := by
  rcases Nat.eq_zero_or_pos num with rfl | hnum
  · rw [nearest_zero, Option.some.injEq] at h
    rw [← h, size_zero]
    positivity
  · obtain ⟨mantissa, exponent, hround, heq⟩ := exists_rounding negative hnum hden
    rw [Rounding.size_carry (heq ▸ h)]
    exact hround.size_le hbound hpower hle

theorem le_nearest_size (hnum : 0 < num) (hden : 0 < den)
    (h : nearest negative num den = some number) (hbound : bound ≤ 2 ^ 53)
    (hpower : minExponent ≤ power) (hle : bound * 2 ^ power ≤ (num : ℚ) / den) :
    bound * 2 ^ power ≤ number.size := by
  obtain ⟨mantissa, exponent, hround, heq⟩ := exists_rounding negative hnum hden
  rw [Rounding.size_carry (heq ▸ h)]
  exact hround.le_size hbound hpower hle

end Binary64

end LeaseLog
