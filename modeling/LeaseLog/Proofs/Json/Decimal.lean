import LeaseLog.Proofs.Json.Rounding
import LeaseLog.Proofs.Text.Numerals

/-!
# Decimals of binary floating point numbers

The shortest decimal of a number is read again as some number: what is printed never turns out too
large, although it may exceed the number, and although reading rounds up to three times.

Results:
1. `tenPow_size_le`, `one_le_tenPow_size`: how far off a rounded power of ten can be.
2. `ofDecimal_isSome`: which decimals are not too large.
3. `Finite.of_ofDecimal`: a decimal that is read stands for a number of the format.
-/

namespace LeaseLog.Binary64

/-! ## Definitions -/

/-- The limit of sizes as a natural number. -/
@[irreducible] def limitNat : Nat := (2 ^ 54 - 1) * 2 ^ 970

/-- A decimal that is not too large to be read: its digits, and its size where the power of ten
comes near the largest one. -/
structure Readable (digits : Nat) (power : Int) : Prop where
  digits_le : digits ≤ 10 ^ 17
  power_le : power ≤ 308
  size_le : 292 < power → digits * 10 ^ power.toNat ≤ limitNat
  digits_le_of_eq : power = 292 → digits ≤ 17976931348623157

theorem cast_mul_two_pow (digits power : Nat) :
    ((digits * 2 ^ power : Nat) : ℚ) = digits * 2 ^ (power : Int) := by
  rw [Nat.cast_mul, Nat.cast_pow, Nat.cast_ofNat, zpow_natCast]

theorem cast_mul_ten_pow (digits power : Nat) :
    ((digits * 10 ^ power : Nat) : ℚ) = digits * 10 ^ (power : Int) := by
  rw [Nat.cast_mul, Nat.cast_pow, Nat.cast_ofNat, zpow_natCast]

theorem limitNat_eq : limitNat = (2 ^ 54 - 1) * 2 ^ 970 := by
  delta limitNat
  rfl

theorem limit_eq : limit = (limitNat : ℚ) := by
  have hodd : ((2 ^ 54 - 1 : Nat) : ℚ) = 2 ^ 54 - 1 := by norm_num
  rw [limitNat_eq, cast_mul_two_pow, hodd, limit, Nat.cast_ofNat]

/-! ## 1. Arithmetic on numbers -/

variable {a b number result : Binary64} {negative : Bool}

theorem mul_value (a b : Binary64) :
    ((scaleTwo (a.mantissa * b.mantissa) 1 (a.exponent + b.exponent)).1 : ℚ) /
      (scaleTwo (a.mantissa * b.mantissa) 1 (a.exponent + b.exponent)).2 = a.size * b.size := by
  rw [scaleTwo_div, zpow_add₀ (by norm_num), size, size]
  push_cast
  ring

theorem mul_isSome (h : a.size * b.size < limit) : ∃ result, a.mul b = some result :=
  nearest_isSome _ (scaleTwo_den_pos (by decide) _) (by rwa [mul_value])

theorem Finite.of_mul (h : a.mul b = some result) : result.Finite :=
  Finite.of_nearest (scaleTwo_den_pos (by decide) _) h

theorem mantissa_pos_of_size_pos (h : 0 < number.size) : 0 < number.mantissa := by
  rcases Nat.eq_zero_or_pos number.mantissa with hzero | hpos
  · simp [size, hzero] at h
  · exact hpos

theorem div_value (a b : Binary64) :
    ((scaleTwo a.mantissa b.mantissa (a.exponent - b.exponent)).1 : ℚ) /
      (scaleTwo a.mantissa b.mantissa (a.exponent - b.exponent)).2 = a.size / b.size := by
  rw [scaleTwo_div, zpow_sub₀ (by norm_num), size, size, mul_div_mul_comm]

theorem div_isSome (hb : 1 ≤ b.size) (ha : a.size < limit) : ∃ result, a.div b = some result := by
  have hden : 0 < b.mantissa := mantissa_pos_of_size_pos (by linarith)
  refine nearest_isSome _ (scaleTwo_den_pos hden _) ?_
  rw [div_value]
  exact lt_of_le_of_lt (div_le_self a.size_nonneg hb) ha

theorem Finite.of_div (hb : 0 < b.size) (h : a.div b = some result) : result.Finite :=
  Finite.of_nearest (scaleTwo_den_pos (mantissa_pos_of_size_pos hb) _) h

/-! ### Powers of ten -/

theorem tenPow_eq {power : Nat} (h : power ≤ 308) :
    nearest false (10 ^ power) 1 = some (tenPow power) := by
  have hlimit : ∀ power ≤ 308, 10 ^ power < limitNat := by decide +kernel
  have hlt : ((10 ^ power : Nat) : ℚ) / (1 : Nat) < limit := by
    rw [limit_eq, Nat.cast_one, div_one, Nat.cast_lt]
    exact hlimit power h
  obtain ⟨number, hnumber⟩ := nearest_isSome false (by decide) hlt
  rw [tenPow, Nat.pow_eq, hnumber, Option.getD_some]

theorem tenPow_size_le {power bound : Nat} {exponent : Int} (h : power ≤ 308)
    (hbound : bound ≤ 2 ^ 53) (hexponent : minExponent ≤ exponent)
    (hle : (10 ^ power : ℚ) ≤ bound * 2 ^ exponent) :
    (tenPow power).size ≤ bound * 2 ^ exponent :=
  nearest_size_le (by decide) (tenPow_eq h) hbound hexponent (by simpa using hle)

theorem one_le_tenPow_size {power : Nat} (h : power ≤ 308) : 1 ≤ (tenPow power).size := by
  have hle : ((1 : Nat) : ℚ) * 2 ^ (0 : Int) ≤ ((10 ^ power : Nat) : ℚ) / (1 : Nat) := by
    simpa using one_le_pow₀ (by norm_num : (1 : ℚ) ≤ 10)
  simpa using le_nearest_size (Nat.pow_pos (by decide)) (by decide) (tenPow_eq h) (by decide)
    (by decide) hle

/-! ## 2. Decimals that can be read -/

/-- One division by a power of ten makes nothing too large. -/
theorem scaleTen_isSome_of_near {steps : Nat} {power : Int} (hnear : power.natAbs ≤ 308)
    (hpower : power ≤ 0) (h : number.size < limit) :
    ∃ result, scaleTen steps number power = some result := by
  unfold scaleTen
  rw [if_pos hnear]
  split
  · obtain rfl : power = 0 := by omega
    have hone : (tenPow 0).size ≤ 1 := by
      simpa using @tenPow_size_le 0 1 0 (by decide) (by decide) (by decide) (by simp)
    exact mul_isSome (lt_of_le_of_lt (mul_le_of_le_one_right number.size_nonneg hone) h)
  · exact div_isSome (one_le_tenPow_size hnear) h

/-- Division by powers of ten makes nothing too large. -/
theorem scaleTen_isSome_of_nonpos {steps : Nat} {power : Int} (hpower : power ≤ 0)
    (h : number.size < limit) : ∃ result, scaleTen steps number power = some result := by
  induction steps generalizing number power with
  | zero =>
    by_cases hnear : power.natAbs ≤ 308
    · exact scaleTen_isSome_of_near hnear hpower h
    · unfold scaleTen
      rw [if_neg hnear, if_neg (show ¬0 ≤ power by omega)]
      split <;> exact ⟨_, rfl⟩
  | succ steps ih =>
    by_cases hnear : power.natAbs ≤ 308
    · exact scaleTen_isSome_of_near hnear hpower h
    · have hone := one_le_tenPow_size (le_refl 308)
      obtain ⟨smaller, hsmaller⟩ := div_isSome hone h
      have hfinite : smaller.Finite := Finite.of_div (by linarith) hsmaller
      unfold scaleTen
      rw [if_neg hnear, if_neg (show ¬0 ≤ power by omega), hsmaller]
      split
      · exact ⟨_, rfl⟩
      · exact ih (by omega) hfinite.size_lt_limit

theorem scaleTen_of_nonneg {steps power : Nat} (hpower : power ≤ 308) (number : Binary64) :
    scaleTen steps number power = number.mul (tenPow power) := by
  unfold scaleTen
  rw [if_pos (by omega), if_pos (by omega), Int.toNat_natCast]

/-! ### Significands and powers -/

/-- A significand is rounded below the limit. -/
theorem nearest_significand {significand : Nat} (h : significand < 2 ^ 64) :
    ∃ number, nearest false significand 1 = some number := by
  refine nearest_isSome _ (by decide) ?_
  have hsmall : ∀ bits ≤ 64, 2 ^ bits < limitNat := by decide +kernel
  rw [limit_eq, Nat.cast_one, div_one, Nat.cast_lt]
  exact h.trans (hsmall 64 le_rfl)

theorem ofDecimal_of_scaleTen {significand : Nat} {power : Int}
    (hnumber : nearest false significand 1 = some number)
    (h : ∃ result, scaleTen 3 number power = some result) :
    ∃ result, ofDecimal negative significand power = some result := by
  obtain ⟨result, hresult⟩ := h
  exact ⟨{ result with negative }, by simp [ofDecimal, hnumber, hresult]⟩

/-- Bounds of the rounded significand and of the rounded power bound their product. -/
theorem ofDecimal_isSome_of_bounds {significand power k l : Nat} {i j : Int} (hpower : power ≤ 308)
    (hnumber : nearest false significand 1 = some number) (hsize : number.size ≤ k * 2 ^ i)
    (hten : (tenPow power).size ≤ l * 2 ^ j) (h : (k * l : ℚ) * 2 ^ (i + j) < limit) :
    ∃ result, ofDecimal negative significand power = some result := by
  refine ofDecimal_of_scaleTen hnumber ?_
  rw [scaleTen_of_nonneg hpower]
  refine mul_isSome (lt_of_le_of_lt ?_ h)
  calc number.size * (tenPow power).size ≤ (k * 2 ^ i) * (l * 2 ^ j) := by
        have := (tenPow power).size_nonneg
        gcongr
    _ = k * l * 2 ^ (i + j) := by
        rw [zpow_add₀ (by norm_num)]
        ring

theorem mul_pow_lt_limit {k n : Nat} {i : Int} (hi : i = n) (h : k * 2 ^ n < limitNat) :
    (k : ℚ) * 2 ^ i < limit := by
  rw [hi, limit_eq, ← cast_mul_two_pow]
  exact Nat.cast_lt.mpr h

/-- The significand of a decimal near the limit is exact, and the rounded power of ten leaves it
below the limit. -/
theorem near_limit_table : ∀ power ≤ 308, 292 < power →
    limitNat / 10 ^ power ≤ 2 ^ 53 ∧ 0 ≤ (tenPow power).exponent ∧
      limitNat / 10 ^ power * (tenPow power).mantissa * 2 ^ (tenPow power).exponent.toNat <
        limitNat := by
  decide +kernel

/-- At this power of ten a significand of 17 digits reaches the limit, and has one bit too many. -/
theorem at_limit_table :
    0 ≤ (tenPow 292).exponent ∧
      8988465674311578 * (tenPow 292).mantissa * 2 ^ (1 + (tenPow 292).exponent).toNat <
        limitNat ∧
      nearest false 17976931348623157 1 = some ⟨false, 8988465674311578, 1⟩ := by
  decide +kernel

theorem ofDecimal_isSome_of_large {significand power : Nat} (hlarge : 292 < power)
    (hpower : power ≤ 308) (hsmall : significand < 2 ^ 64)
    (hsize : significand * 10 ^ power ≤ limitNat) :
    ∃ result, ofDecimal negative significand power = some result := by
  obtain ⟨number, hnumber⟩ := nearest_significand hsmall
  obtain ⟨hexact, hexponent, hproduct⟩ := near_limit_table power hpower hlarge
  have hle : significand ≤ limitNat / 10 ^ power :=
    (Nat.le_div_iff_mul_le (Nat.pow_pos (by decide))).mpr hsize
  generalize limitNat / 10 ^ power = bound at *
  refine ofDecimal_isSome_of_bounds hpower hnumber (k := bound) (i := 0)
    (nearest_size_le (by decide) hnumber hexact (by decide) (by simpa using hle)) le_rfl ?_
  rw [zero_add, ← Nat.cast_mul]
  exact mul_pow_lt_limit (by omega) hproduct

theorem ofDecimal_isSome_at_limit {significand : Nat} (h : significand ≤ 17976931348623157) :
    ∃ result, ofDecimal negative significand 292 = some result := by
  obtain ⟨hexponent, hproduct, hodd⟩ := at_limit_table
  obtain ⟨number, hnumber⟩ := nearest_significand (show significand < 2 ^ 64 by omega)
  have hsize : number.size ≤ (8988465674311578 : Nat) * 2 ^ (1 : Int) := by
    rcases Nat.lt_or_ge significand 17976931348623157 with hlt | hge
    · refine nearest_size_le (by decide) hnumber (by decide) (by decide) ?_
      rw [Nat.cast_one, div_one]
      exact_mod_cast (show significand ≤ 8988465674311578 * 2 by omega)
    · obtain rfl : significand = 17976931348623157 := by omega
      rw [hodd, Option.some.injEq] at hnumber
      rw [← hnumber, size]
  have hpower : 292 ≤ 308 := by decide
  change ∃ result, ofDecimal negative significand (292 : Nat) = some result
  refine ofDecimal_isSome_of_bounds hpower hnumber hsize le_rfl ?_
  rw [← Nat.cast_mul]
  exact mul_pow_lt_limit (by omega) hproduct

theorem ofDecimal_isSome_of_medium {significand power : Nat} (hpower : power ≤ 291)
    (h : significand ≤ 10 ^ 17) : ∃ result, ofDecimal negative significand power = some result := by
  obtain ⟨number, hnumber⟩ := nearest_significand (show significand < 2 ^ 64 by omega)
  have hten : ∀ power ≤ 291, 10 ^ power ≤ 2 ^ 967 := by decide +kernel
  have hproduct : ∀ n ≤ 984, 5 ^ 17 * 2 ^ n < limitNat := by decide +kernel
  have hsize : number.size ≤ (5 ^ 17 : Nat) * 2 ^ (17 : Int) := by
    refine nearest_size_le (by decide) hnumber (by decide) (by decide) ?_
    rw [Nat.cast_one, div_one]
    exact_mod_cast (show significand ≤ 5 ^ 17 * 2 ^ 17 by omega)
  have htenPow : (tenPow power).size ≤ (1 : Nat) * 2 ^ (967 : Int) := by
    refine tenPow_size_le (by omega) (by decide) (by decide) ?_
    rw [Nat.cast_one, one_mul, show (967 : Int) = ((967 : Nat) : Int) from rfl, zpow_natCast]
    exact_mod_cast hten power hpower
  refine ofDecimal_isSome_of_bounds (by omega) hnumber hsize htenPow ?_
  rw [Nat.cast_one, mul_one]
  exact mul_pow_lt_limit (n := 984) (by decide) (hproduct 984 le_rfl)

/-- A readable decimal stands for a number. -/
theorem ofDecimal_isSome {digits : Nat} {power : Int} (h : Readable digits power)
    (negative : Bool) : ∃ result, ofDecimal negative digits power = some result := by
  have hdigits := h.digits_le
  -- up to 291 any 17 digits stay below the limit, at 292 and above the digits are bounded
  rcases le_or_gt power 0 with hnonpos | hpos
  · obtain ⟨number, hnumber⟩ := nearest_significand (show digits < 2 ^ 64 by omega)
    have hfinite : number.Finite := Finite.of_nearest (by decide) hnumber
    exact ofDecimal_of_scaleTen hnumber (scaleTen_isSome_of_nonpos hnonpos hfinite.size_lt_limit)
  · obtain ⟨n, rfl⟩ := Int.eq_ofNat_of_zero_le hpos.le
    rcases lt_trichotomy n 292 with hlt | rfl | hgt
    · exact ofDecimal_isSome_of_medium (by omega) hdigits
    · exact ofDecimal_isSome_at_limit (h.digits_le_of_eq rfl)
    · exact ofDecimal_isSome_of_large hgt (by exact_mod_cast h.power_le) (by omega)
        (by simpa using h.size_le (by omega))

/-! ### What decimals stand for -/

theorem Finite.of_scaleTen {steps : Nat} {power : Int} (hnumber : number.Finite)
    (h : scaleTen steps number power = some result) : result.Finite := by
  have hten : ∀ power ≤ 308, 0 < (tenPow power).size := fun power hpower =>
    lt_of_lt_of_le one_pos (one_le_tenPow_size hpower)
  induction steps generalizing number power with
  | zero =>
    unfold scaleTen at h
    split at h
    · rename_i hnear
      split at h
      · exact Finite.of_mul h
      · exact Finite.of_div (hten _ hnear) h
    · split at h
      · cases h
        exact hnumber
      · split at h
        · cases h
        · cases h
          exact Finite.zero _
  | succ steps ih =>
    unfold scaleTen at h
    split at h
    · rename_i hnear
      split at h
      · exact Finite.of_mul h
      · exact Finite.of_div (hten _ hnear) h
    · split at h
      · cases h
        exact hnumber
      · split at h
        · cases h
        · dsimp only at h
          split at h
          · cases h
          · rename_i smaller hsmaller
            exact ih (Finite.of_div (hten 308 le_rfl) hsmaller) h

theorem Finite.of_ofDecimal {significand : Nat} {power : Int}
    (h : ofDecimal negative significand power = some result) : result.Finite := by
  unfold ofDecimal at h
  split at h
  · cases h
  · rename_i rounded hrounded
    split at h
    · cases h
    · rename_i scaled hscaled
      cases h
      have hfinite := Finite.of_scaleTen (Finite.of_nearest (by decide) hrounded) hscaled
      exact ⟨hfinite.mantissa_lt, hfinite.minExponent_le, hfinite.exponent_le⟩

end LeaseLog.Binary64
