import LeaseLog.Proofs.Json.Decimal

/-!
# The shortest decimal

What is printed for a number lies in its neighbourhood or is the nearest decimal of seventeen
digits. Either way it has at most seventeen digits, and it is not too large to be read.

Results:
1. `magnitude_spec`: the magnitude of a number places it between two powers of ten.
2. `shortestFrom_spec`, `trimZeros_spec`: what the search for a decimal ends with.
3. `shortest_readable`: the shortest decimal of a number can be read.
-/

namespace LeaseLog.Binary64

/-! ## Definitions -/

namespace Neighbourhood

/-- The number itself, as a fraction. -/
def center (n : Neighbourhood) : ℚ := n.value / n.den

/-- The upper end, as a fraction. -/
def top (n : Neighbourhood) : ℚ := n.high / n.den

end Neighbourhood

/-- The largest number. -/
def largest (negative : Bool) : Binary64 := ⟨negative, 2 ^ 53 - 1, maxExponent⟩

/-! ## 1. Neighbourhoods -/

theorem scaleTwo_den (num num' den : Nat) (exponent : Int) :
    (scaleTwo num den exponent).2 = (scaleTwo num' den exponent).2 := by
  unfold scaleTwo
  split <;> rfl

theorem neighbourhood_den_pos (number : Binary64) : 0 < number.neighbourhood.den :=
  scaleTwo_den_pos (by decide) _

theorem center_neighbourhood (number : Binary64) : number.neighbourhood.center = number.size := by
  have hden : number.neighbourhood.den = (scaleTwo (4 * number.mantissa) 4 number.exponent).2 :=
    scaleTwo_den _ _ _ _
  rw [Neighbourhood.center, hden, neighbourhood]
  dsimp only
  rw [scaleTwo_div, size]
  push_cast
  ring

theorem top_neighbourhood (number : Binary64) :
    number.neighbourhood.top = (2 * number.mantissa + 1) * 2 ^ (number.exponent - 1) := by
  have hden : number.neighbourhood.den = (scaleTwo (4 * number.mantissa + 2) 4 number.exponent).2 :=
    scaleTwo_den _ _ _ _
  rw [Neighbourhood.top, hden, neighbourhood]
  dsimp only
  rw [scaleTwo_div, zpow_sub_one₀ (by norm_num)]
  push_cast
  ring

namespace Neighbourhood

variable {n : Neighbourhood} {digits : Nat}

theorem divTen_den_pos (h : 0 < n.den) (power : Int) : 0 < (n.divTen power).den := by
  unfold divTen
  split
  · exact Nat.mul_pos h (Nat.pow_pos (by decide))
  · exact h

theorem divTen_spec (n : Neighbourhood) (power : Int) :
    (n.divTen power).center = n.center * 10 ^ (-power) ∧
      (n.divTen power).top = n.top * 10 ^ (-power) := by
  unfold divTen
  split
  · rename_i h
    obtain ⟨p, rfl⟩ := Int.eq_ofNat_of_zero_le h
    simp only [center, top, Int.toNat_natCast, Nat.pow_eq, Nat.cast_mul, Nat.cast_pow,
      Nat.cast_ofNat, zpow_neg, zpow_natCast, div_mul_eq_div_div]
    exact ⟨rfl, rfl⟩
  · rename_i h
    obtain ⟨p, hp⟩ := Int.eq_ofNat_of_zero_le (show 0 ≤ -power by omega)
    have hsize : power.natAbs = p := by omega
    rw [hp, hsize]
    simp only [center, top, Nat.pow_eq, Nat.cast_mul, Nat.cast_pow, Nat.cast_ofNat, zpow_natCast]
    constructor <;> ring

theorem le_top_of_contains (hden : 0 < n.den) (h : n.contains digits = true) :
    (digits : ℚ) ≤ n.top := by
  have hpos : (0 : ℚ) < n.den := by exact_mod_cast hden
  rw [top, le_div_iff₀ hpos]
  have hle : digits * n.den ≤ n.high := by
    unfold contains at h
    split at h <;> simp only [Bool.and_eq_true, decide_eq_true_eq] at h <;> omega
  exact_mod_cast hle

theorem divNearest_eq (num den : Nat) :
    divNearest num den = num / den ∨ divNearest num den = num / den + 1 := by
  unfold divNearest
  dsimp only
  split
  · exact .inl rfl
  · split
    · exact .inr rfl
    · split
      · exact .inl rfl
      · exact .inr rfl

/-- A neighbour is next to the value and lies in the interval. -/
theorem pick?_spec (h : n.pick? = some digits) :
    n.contains digits = true ∧ (digits = n.value / n.den ∨ digits = n.value / n.den + 1) := by
  unfold pick? at h
  dsimp only at h
  split at h
  · rename_i hbelow habove
    obtain rfl := Option.some.inj h
    rcases divNearest_eq n.value n.den with heq | heq
    · exact ⟨heq ▸ hbelow, .inl heq⟩
    · exact ⟨heq ▸ habove, .inr heq⟩
  · rename_i hbelow _
    obtain rfl := Option.some.inj h
    exact ⟨hbelow, .inl rfl⟩
  · rename_i _ habove
    obtain rfl := Option.some.inj h
    exact ⟨habove, .inr rfl⟩
  · cases h

/-- The digits of a fraction that is scaled by a power of ten tell its magnitude. -/
theorem length_decimal_spec {value den places : Nat} (hden : 0 < den)
    (h : den ≤ value * Nat.pow 10 places) :
    (10 : ℚ) ^ ((Text.decimal (value * Nat.pow 10 places / den)).length - places - 1 : Int) ≤
        value / den ∧
      (value / den : ℚ) <
        10 ^ ((Text.decimal (value * Nat.pow 10 places / den)).length - places : Int) := by
  have hpos : (0 : ℚ) < den := by exact_mod_cast hden
  obtain ⟨scale, hscale⟩ : ∃ scale, Nat.pow 10 places = scale := ⟨_, rfl⟩
  have hpow : (scale : ℚ) = 10 ^ places := by
    rw [← hscale, Nat.pow_eq, Nat.cast_pow, Nat.cast_ofNat]
  have hten : (0 : ℚ) < scale := by rw [hpow]; positivity
  rw [hscale] at h ⊢
  have hlength := Text.length_decimal_pos (value * scale / den)
  have hlow := Text.ten_pow_le_of_pos (Nat.div_pos h hden)
  have hhigh := Text.lt_ten_pow_length (value * scale / den)
  rw [Nat.le_div_iff_mul_le hden] at hlow
  rw [Nat.div_lt_iff_lt_mul hden] at hhigh
  generalize (Text.decimal (value * scale / den)).length = length at *
  obtain ⟨digits, rfl⟩ := Nat.exists_eq_succ_of_ne_zero hlength.ne'
  have hlow' : (10 ^ digits * den : ℚ) ≤ value * scale := by exact_mod_cast hlow
  have hhigh' : (value * scale : ℚ) < 10 ^ (digits + 1) * den := by exact_mod_cast hhigh
  have hshift : ∀ power : Int, (10 : ℚ) ^ (power - places) = 10 ^ power / scale := by
    intro power
    rw [hpow, zpow_sub₀ (by norm_num), zpow_natCast]
  constructor
  · rw [show ((digits.succ : Nat) : Int) - places - 1 = (digits : Int) - places by push_cast; ring,
      hshift, zpow_natCast, div_le_div_iff₀ hten hpos]
    exact hlow'
  · rw [hshift, zpow_natCast, div_lt_div_iff₀ hpos hten]
    exact hhigh'

/-- The magnitude places a value between two powers of ten. -/
theorem magnitude_spec (hden : 0 < n.den) (h : n.den ≤ n.value * Nat.pow 10 places) :
    (10 : ℚ) ^ (n.magnitude - 1) ≤ n.center ∧ n.center < 10 ^ n.magnitude :=
  length_decimal_spec hden h

end Neighbourhood

/-! ## 2. The search for a decimal -/

/-- What the search ends with: digits next to the number on a grid of at most as many places. They
lie in the neighbourhood, unless the grid is the finest one. -/
structure Found (n : Neighbourhood) (magnitude : Int) (finest digits : Nat) (power : Int) :
    Prop where
  grid : ∃ places, 1 ≤ places ∧ places ≤ finest ∧ power = magnitude - places
  beside : digits = (n.divTen power).value / (n.divTen power).den ∨
    digits = (n.divTen power).value / (n.divTen power).den + 1
  size_le : (digits : ℚ) * 10 ^ power ≤ n.top ∨
    power = magnitude - finest ∧ (digits : ℚ) * 10 ^ power ≤ n.center + 10 ^ power / 2

theorem divNearest_div_le {num den : Nat} (hden : 0 < den) :
    (divNearest num den : ℚ) ≤ num / den + 1 / 2 := by
  have hpos : (0 : ℚ) < den := by exact_mod_cast hden
  have h : (2 * (divNearest num den * den) : ℚ) ≤ 2 * num + den := by
    exact_mod_cast divNearest_mul_le hden
  rw [div_add_div _ _ hpos.ne' two_ne_zero, le_div_iff₀ (by positivity)]
  linarith

theorem shortestFrom_spec {n : Neighbourhood} (hden : 0 < n.den) (magnitude : Int)
    {left count digits : Nat} {power : Int} (hcount : 1 ≤ count)
    (h : shortestFrom n magnitude left count = (digits, power)) :
    Found n magnitude (count + left) digits power := by
  have hmul : ∀ value : ℚ, ∀ power : Int, value * 10 ^ (-power) * 10 ^ power = value := by
    intro value power
    rw [mul_assoc, ← zpow_add₀ (by norm_num), neg_add_cancel, zpow_zero, mul_one]
  induction left generalizing count with
  | zero =>
    -- no place is left, so the digits are the nearest ones on the finest grid
    rw [shortestFrom] at h
    obtain ⟨rfl, rfl⟩ := Prod.mk.inj h
    have hscaled := Neighbourhood.divTen_den_pos hden (magnitude - count)
    refine ⟨⟨count, hcount, le_rfl, rfl⟩, Neighbourhood.divNearest_eq _ _, .inr ⟨rfl, ?_⟩⟩
    have hnear := @divNearest_div_le (n.divTen (magnitude - count)).value _ hscaled
    have hcenter := (n.divTen_spec (magnitude - count)).1
    rw [Neighbourhood.center] at hcenter
    rw [hcenter] at hnear
    calc _ ≤ (n.center * 10 ^ (-(magnitude - count : Int)) + 1 / 2) *
          10 ^ (magnitude - count : Int) := by gcongr
      _ = n.center + 10 ^ (magnitude - count : Int) / 2 := by
          rw [add_mul, hmul]
          ring
  | succ left ih =>
    rw [shortestFrom] at h
    split at h
    · rename_i found hfound
      obtain ⟨rfl, rfl⟩ := Prod.mk.inj h
      obtain ⟨hcontains, hbeside⟩ := Neighbourhood.pick?_spec hfound
      have htop := Neighbourhood.le_top_of_contains
        (Neighbourhood.divTen_den_pos hden (magnitude - count)) hcontains
      rw [(n.divTen_spec (magnitude - count)).2] at htop
      refine ⟨⟨count, hcount, by omega, rfl⟩, hbeside, .inl ?_⟩
      calc (found : ℚ) * 10 ^ (magnitude - count : Int)
          ≤ n.top * 10 ^ (-(magnitude - count : Int)) * 10 ^ (magnitude - count : Int) := by gcongr
        _ = n.top := hmul _ _
    · obtain ⟨⟨places, hplaces, hle, hpower⟩, hbeside, hsize⟩ := ih (by omega) h
      refine ⟨⟨places, hplaces, by omega, hpower⟩, hbeside, ?_⟩
      rwa [show count + (left + 1) = count + 1 + left by omega]

/-- Trailing zeros move into the power of ten. -/
theorem trimZeros_spec {left digits trimmed : Nat} {power power' : Int} (hdigits : digits ≠ 0)
    (h : trimZeros left (digits, power) = (trimmed, power')) :
    trimmed ≠ 0 ∧ ∃ zeros : Nat, digits = trimmed * 10 ^ zeros ∧ power' = power + zeros := by
  induction left generalizing digits power with
  | zero =>
    obtain ⟨rfl, rfl⟩ := Prod.mk.inj h
    exact ⟨hdigits, 0, by simp, by simp⟩
  | succ left ih =>
    rw [trimZeros] at h
    split at h
    · rename_i hzero
      obtain ⟨htrimmed, zeros, hsplit, hpower⟩ := ih (by omega) h
      refine ⟨htrimmed, zeros + 1, ?_, by push_cast; omega⟩
      rw [Nat.pow_succ, ← Nat.mul_assoc, ← hsplit]
      omega
    · obtain ⟨rfl, rfl⟩ := Prod.mk.inj h
      exact ⟨hdigits, 0, by simp, by simp⟩

/-! ## 3. The shortest decimal is readable -/

/-- What bounds the decimals of all numbers but the largest one. -/
@[irreducible] def belowLimit : Nat := (2 ^ 54 - 3) * 2 ^ 970

theorem belowLimit_le : belowLimit ≤ limitNat := by decide +kernel

/-- Where the powers of ten stand, next to the limit. -/
theorem ten_pow_table : ∀ power ≤ 309,
    (power = 292 → belowLimit < 17976931348623157 * 10 ^ power ∧ 1 * 10 ^ power ≤ 1 * 2 ^ 971) ∧
    (power = 309 → limitNat < 1 * 10 ^ power) := by
  decide +kernel

theorem belowLimit_eq_nat : belowLimit = (2 ^ 54 - 3) * 2 ^ 970 := by
  delta belowLimit
  rfl

theorem belowLimit_eq : (belowLimit : ℚ) = (2 ^ 54 - 3) * 2 ^ (970 : Int) := by
  have hodd : ((2 ^ 54 - 3 : Nat) : ℚ) = 2 ^ 54 - 3 := by norm_num
  rw [belowLimit_eq_nat, cast_mul_two_pow, hodd, Nat.cast_ofNat]

theorem ten_pow_292_le : (10 : ℚ) ^ (292 : Int) ≤ 2 ^ (970 + 1 : Int) := by
  have hle := Nat.cast_le (α := ℚ).mpr ((ten_pow_table 292 (by decide)).1 rfl).2
  rw [cast_mul_ten_pow, cast_mul_two_pow, Nat.cast_one, one_mul, one_mul] at hle
  exact hle

theorem limit_lt_ten_pow_309 : limit < (10 : ℚ) ^ (309 : Int) := by
  have hlt := Nat.cast_lt (α := ℚ).mpr ((ten_pow_table 309 le_rfl).2 rfl)
  rw [← limit_eq, cast_mul_ten_pow, Nat.cast_one, one_mul] at hlt
  exact hlt

variable {number : Binary64} {digits : Nat} {power : Int}

theorem two_pow_le_ten_pow {m n : Nat} (h : m ≤ 3 * n) : 2 ^ m ≤ Nat.pow 10 n :=
  calc 2 ^ m ≤ 2 ^ (3 * n) := Nat.pow_le_pow_right (by decide) h
    _ = (2 ^ 3) ^ n := Nat.pow_mul 2 3 n
    _ ≤ 10 ^ n := Nat.pow_le_pow_left (by decide) n

theorem minExponent_eq : minExponent = -((1074 : Nat) : Int) := rfl

/-- A scale that makes the smallest size a whole one does so for all sizes. -/
theorem den_le_scaled {bits : Nat} (h : number.Finite) (hne : number.mantissa ≠ 0)
    (hbits : minExponent = -(bits : Int)) (places : Nat) (hplaces : bits ≤ 3 * places) :
    number.neighbourhood.den ≤ number.neighbourhood.value * Nat.pow 10 places := by
  have hscale := two_pow_le_ten_pow hplaces
  generalize Nat.pow 10 places = scale at hscale ⊢
  have hden : (0 : ℚ) < number.neighbourhood.den := by
    exact_mod_cast neighbourhood_den_pos number
  have hsmallest : (2 : ℚ) ^ minExponent ≤ number.neighbourhood.center := by
    have hone : (1 : ℚ) ≤ number.mantissa := by exact_mod_cast Nat.one_le_iff_ne_zero.mpr hne
    have hexponent := h.minExponent_le
    rw [center_neighbourhood, size]
    calc (2 : ℚ) ^ minExponent = 1 * 2 ^ minExponent := (one_mul _).symm
      _ ≤ number.mantissa * 2 ^ number.exponent := by
        gcongr
        norm_num
  have hcenter : 0 ≤ number.neighbourhood.center := le_trans (by positivity) hsmallest
  have hwhole : (1 : ℚ) ≤ number.neighbourhood.center * scale := by
    have hle : (2 ^ bits : ℚ) ≤ scale := by exact_mod_cast hscale
    calc (1 : ℚ) = 2 ^ minExponent * 2 ^ bits := by
          rw [hbits, zpow_neg, zpow_natCast, inv_mul_cancel₀ (by positivity)]
      _ ≤ number.neighbourhood.center * scale := by gcongr
  rw [Neighbourhood.center, div_mul_eq_mul_div, le_div_iff₀ hden, one_mul] at hwhole
  exact_mod_cast hwhole

/-- Digits on a grid of up to seventeen places. -/
theorem Found.digits_bounds {n : Neighbourhood} (hden : 0 < n.den)
    (hscaled : n.den ≤ n.value * Nat.pow 10 Neighbourhood.places)
    (h : Found n n.magnitude 17 digits power) : digits ≠ 0 ∧ digits ≤ 10 ^ 17 := by
  obtain ⟨hlow, hhigh⟩ := Neighbourhood.magnitude_spec hden hscaled
  obtain ⟨places, hplaces, hle, hpower⟩ := h.grid
  have hdivided := Neighbourhood.divTen_den_pos hden power
  have hpos : (0 : ℚ) < (n.divTen power).den := by exact_mod_cast hdivided
  have hcenter := (n.divTen_spec power).1
  have hone : (1 : ℚ) ≤ (n.divTen power).center := by
    rw [hcenter]
    calc (1 : ℚ) ≤ 10 ^ (n.magnitude - 1 + -power) := one_le_zpow₀ (by norm_num) (by omega)
      _ = 10 ^ (n.magnitude - 1) * 10 ^ (-power) := zpow_add₀ (by norm_num) _ _
      _ ≤ n.center * 10 ^ (-power) := by gcongr
  have hlt : (n.divTen power).center < ((10 ^ places : Nat) : ℚ) := by
    rw [hcenter]
    calc n.center * 10 ^ (-power) < 10 ^ n.magnitude * 10 ^ (-power) := by gcongr
      _ = ((10 ^ places : Nat) : ℚ) := by
        rw [← zpow_add₀ (by norm_num), show n.magnitude + -power = places by omega, zpow_natCast]
        push_cast
        rfl
  rw [Neighbourhood.center] at hone hlt
  rw [le_div_iff₀ hpos, one_mul] at hone
  rw [div_lt_iff₀ hpos] at hlt
  have hquotient : 0 < (n.divTen power).value / (n.divTen power).den :=
    Nat.div_pos (by exact_mod_cast hone) hdivided
  have hbound : (n.divTen power).value / (n.divTen power).den < 10 ^ places :=
    (Nat.div_lt_iff_lt_mul hdivided).mpr (by exact_mod_cast hlt)
  have hplaces : 10 ^ places ≤ 10 ^ 17 := Nat.pow_le_pow_right (by decide) hle
  rcases h.beside with heq | heq <;> omega

/-- All numbers but the largest one are two places below the limit. -/
theorem size_le_of_smaller (h : number.Finite)
    (hsmaller : number.mantissa < 2 ^ 53 - 1 ∨ number.exponent < maxExponent) :
    number.size ≤ (2 ^ 54 - 4) * 2 ^ (970 : Int) := by
  rcases hsmaller with hmantissa | hexponent
  · have hle : (number.mantissa : ℚ) ≤ 2 ^ 53 - 2 := by
      rw [le_sub_iff_add_le]
      exact_mod_cast (show number.mantissa + 2 ≤ 2 ^ 53 by omega)
    calc number.size ≤ (2 ^ 53 - 2) * 2 ^ (970 + 1 : Int) := by
          have := h.exponent_le
          unfold size
          gcongr
          · norm_num
          · exact this
      _ = (2 ^ 54 - 4) * 2 ^ (970 : Int) := by
          rw [zpow_add_one₀ (by norm_num)]
          generalize (2 : ℚ) ^ (970 : Int) = unit
          ring
  · have hle : (number.mantissa : ℚ) ≤ 2 ^ 54 - 4 := by
      rw [le_sub_iff_add_le]
      exact_mod_cast (show number.mantissa + 4 ≤ 2 ^ 54 by have := h.mantissa_lt; omega)
    unfold maxExponent at hexponent
    unfold size
    gcongr
    · norm_num
    · omega

/-- Below the largest number, whatever the search ends with stays below the limit. -/
theorem Found.size_le_belowLimit (h : number.Finite)
    (hsmaller : number.mantissa < 2 ^ 53 - 1 ∨ number.exponent < maxExponent)
    (hmagnitude : number.neighbourhood.magnitude ≤ 309)
    (hfound : Found number.neighbourhood number.neighbourhood.magnitude 17 digits power) :
    (digits : ℚ) * 10 ^ power ≤ belowLimit := by
  have hsize := size_le_of_smaller h hsmaller
  -- Half of the last place, and half of the finest grid, is at most one more place.
  suffices hslack : (digits : ℚ) * 10 ^ power ≤ number.size + 2 ^ (970 : Int) by
    rw [belowLimit_eq]
    generalize (2 : ℚ) ^ (970 : Int) = unit at *
    linarith
  rcases hfound.size_le with htop | ⟨hpower, hcenter⟩
  · refine htop.trans ?_
    have hexponent := h.exponent_le
    unfold maxExponent at hexponent
    have hplace : (2 : ℚ) ^ (number.exponent - 1) ≤ 2 ^ (970 : Int) := by
      gcongr
      · norm_num
      · omega
    have hdouble : (2 : ℚ) ^ number.exponent = 2 ^ (number.exponent - 1) * 2 := by
      rw [← zpow_add_one₀ (by norm_num), Int.sub_add_cancel]
    rw [top_neighbourhood, size, hdouble]
    linarith
  · refine hcenter.trans ?_
    have hgrid : (10 : ℚ) ^ power ≤ 2 ^ (970 + 1 : Int) := by
      refine le_trans ?_ ten_pow_292_le
      gcongr
      · norm_num
      · omega
    rw [zpow_add_one₀ (by norm_num)] at hgrid
    rw [center_neighbourhood]
    linarith

/-- The largest number is printed with seventeen digits. -/
theorem shortest_largest : ∀ negative, (largest negative).shortest = (17976931348623157, 292) := by
  decide +kernel

theorem power_le_of_lt_limit (h : (10 : ℚ) ^ power < limit) : power ≤ 308 := by
  by_contra hlarge
  have hle : (10 : ℚ) ^ (309 : Int) ≤ 10 ^ power := by
    gcongr
    · norm_num
    · omega
  exact lt_irrefl _ (limit_lt_ten_pow_309.trans_le (hle.trans h.le))

theorem magnitude_le (h : number.Finite) (hne : number.mantissa ≠ 0) :
    number.neighbourhood.magnitude ≤ 309 := by
  have hlow := (Neighbourhood.magnitude_spec (neighbourhood_den_pos number)
    (den_le_scaled h hne minExponent_eq Neighbourhood.places (by decide))).1
  rw [center_neighbourhood] at hlow
  have := power_le_of_lt_limit (hlow.trans_lt h.size_lt_limit)
  omega

/-- Digits below the limit can be read. -/
theorem Readable.of_size_le (hne : digits ≠ 0) (hdigits : digits ≤ 10 ^ 17)
    (hsize : (digits : ℚ) * 10 ^ power ≤ belowLimit) : Readable digits power := by
  have hone : (1 : ℚ) ≤ digits := by exact_mod_cast Nat.one_le_iff_ne_zero.mpr hne
  refine ⟨hdigits, power_le_of_lt_limit ?_, ?_, ?_⟩
  · calc (10 : ℚ) ^ power ≤ digits * 10 ^ power := le_mul_of_one_le_left (by positivity) hone
      _ ≤ belowLimit := hsize
      _ < limit := by
        rw [belowLimit_eq, limit]
        gcongr
        norm_num
  · intro hlarge
    obtain ⟨n, rfl⟩ := Int.eq_ofNat_of_zero_le (show 0 ≤ power by omega)
    rw [← cast_mul_ten_pow, Nat.cast_le] at hsize
    exact hsize.trans belowLimit_le
  · rintro rfl
    have hten := ((ten_pow_table 292 (by decide)).1 rfl).1
    have hle := hsize
    rw [show (292 : Int) = ((292 : Nat) : Int) from rfl, ← cast_mul_ten_pow, Nat.cast_le] at hle
    exact Nat.le_of_lt (Nat.lt_of_mul_lt_mul_right (hle.trans_lt hten))

/-- The shortest decimal of a number can be read. -/
theorem shortest_readable (h : number.Finite) (hne : number.mantissa ≠ 0) :
    number.shortest.1 ≠ 0 ∧ Readable number.shortest.1 number.shortest.2 := by
  -- half a place above the largest number is the limit itself, so its digits are computed
  by_cases hlargest : number.mantissa = 2 ^ 53 - 1 ∧ number.exponent = maxExponent
  · have heq : number = largest number.negative := by
      cases number
      simp_all [largest]
    rw [heq, shortest_largest]
    exact ⟨by decide, by decide, by decide, fun h => absurd h (by decide), fun _ => le_rfl⟩
  · have hsmaller : number.mantissa < 2 ^ 53 - 1 ∨ number.exponent < maxExponent := by
      have := h.mantissa_lt
      have := h.exponent_le
      omega
    have hden := neighbourhood_den_pos number
    have hscaled := den_le_scaled h hne minExponent_eq Neighbourhood.places (by decide)
    obtain ⟨⟨digits, power⟩, hsearch⟩ : ∃ found, shortestFrom number.neighbourhood
      number.neighbourhood.magnitude 16 1 = found := ⟨_, rfl⟩
    obtain ⟨⟨trimmed, power'⟩, htrim⟩ : ∃ found, trimZeros 20 (digits, power) = found := ⟨_, rfl⟩
    have hfound := shortestFrom_spec hden _ le_rfl hsearch
    obtain ⟨hdigits, hle⟩ := hfound.digits_bounds hden hscaled
    obtain ⟨htrimmed, zeros, rfl, rfl⟩ := trimZeros_spec hdigits htrim
    have hsize := hfound.size_le_belowLimit h hsmaller (magnitude_le h hne)
    have hshortest : number.shortest = (trimmed, power + zeros) := by
      rw [← htrim, ← hsearch, shortest]
    rw [hshortest]
    refine ⟨htrimmed, Readable.of_size_le htrimmed ?_ ?_⟩
    · exact (Nat.le_mul_of_pos_right _ (Nat.pow_pos (by decide))).trans hle
    · rw [zpow_add₀ (by norm_num), zpow_natCast, mul_comm ((10 : ℚ) ^ power), ← mul_assoc]
      exact_mod_cast hsize

end LeaseLog.Binary64
