import LeaseLog.Instant.Text
import LeaseLog.Proofs.Text.Numerals

/-!
# Instants read back

A day number is the number of its own date, and the written form of an instant is read as that
instant, for all years that instants can lie in.

Results:
1. `Date.toDays_ofDays`, `Date.isValid_ofDays`: days and dates of the calendar agree.
2. `Instant.ofText?_toText`: the written form of an instant is read back.
3. `Instant.isYear_of_ofText?`: what is read lies in one of those years.
-/

namespace LeaseLog

/-! ## 1. The calendar -/

namespace Date

/-- A year starts within two years of where years of mean length would start it. -/
theorem daysBeforeYear_mean (year : Int) :
    146097 * year ≤ 400 * daysBeforeYear year + 146097 ∧
      400 * daysBeforeYear year ≤ 146097 * year + 146097 := by
  unfold daysBeforeYear
  omega

/-- A day lies in its year. -/
theorem yearOf_bounds (days : Int) :
    daysBeforeYear (yearOf days) ≤ days ∧ days < daysBeforeYear (yearOf days + 1) := by
  have hbefore := daysBeforeYear_mean (days * 400 / 146097 - 1)
  have hafter := daysBeforeYear_mean (days * 400 / 146097 + 1 + 1)
  -- the mean length of a year leads to the right year or to a neighbour of it
  unfold yearOf
  dsimp only
  split
  · rw [Int.sub_add_cancel]
    omega
  · split <;> omega

theorem sum_monthLengths (year : Int) :
    ((monthLengths (isLeapYear year)).sum : Int) =
      daysBeforeYear (year + 1) - daysBeforeYear year := by
  have hleap : isLeapYear year = true ↔ year % 4 = 0 ∧ (year % 100 ≠ 0 ∨ year % 400 = 0) := by
    simp [isLeapYear]
  by_cases h : isLeapYear year = true
  · have := hleap.mp h
    simp only [h, monthLengths, daysBeforeYear, List.sum_cons, List.sum_nil, if_true]
    omega
  · have hnot : ¬(year % 4 = 0 ∧ (year % 100 ≠ 0 ∨ year % 400 = 0)) := fun hl => h (hleap.mpr hl)
    simp only [h, monthLengths, daysBeforeYear, List.sum_cons, List.sum_nil, Bool.false_eq_true,
      if_false]
    omega

/-- The month of a day and the day of the month. -/
theorem monthOf_spec {lengths : List Nat} {day : Nat} (h : day < lengths.sum) :
    (lengths.take (monthOf lengths day).1).sum + (monthOf lengths day).2 = day ∧
      ∃ length, lengths[(monthOf lengths day).1]? = some length ∧
        (monthOf lengths day).2 < length := by
  induction lengths generalizing day with
  | nil => simp at h
  | cons length lengths ih =>
    rw [monthOf]
    split
    · simpa
    · rename_i hge
      have hrest : day - length < lengths.sum := by
        rw [List.sum_cons] at h
        omega
      obtain ⟨hsum, hmonth⟩ := ih hrest
      refine ⟨?_, hmonth⟩
      simp only [List.take_succ_cons, List.sum_cons]
      omega

theorem length_monthLengths (leapYear : Bool) : (monthLengths leapYear).length = 12 := rfl

/-- The month and the day of a date are those of its day of the year. -/
theorem ofDays_spec (days : Int) :
    ∃ month day length, ofDays days = ⟨yearOf (days + epoch), month + 1, day + 1⟩ ∧
      (monthLengths (isLeapYear (yearOf (days + epoch))))[month]? = some length ∧ day < length ∧
      (((monthLengths (isLeapYear (yearOf (days + epoch)))).take month).sum + day : Nat) =
        days + epoch - daysBeforeYear (yearOf (days + epoch)) := by
  have hbounds := yearOf_bounds (days + epoch)
  have hsum := sum_monthLengths (yearOf (days + epoch))
  have hday : (days + epoch - daysBeforeYear (yearOf (days + epoch))).toNat <
      (monthLengths (isLeapYear (yearOf (days + epoch)))).sum := by omega
  obtain ⟨htotal, length, hlength, hlt⟩ := monthOf_spec hday
  refine ⟨(monthOf _ _).1, (monthOf _ _).2, length, rfl, hlength, hlt, ?_⟩
  rw [htotal]
  omega

theorem toDays_ofDays (days : Int) : (ofDays days).toDays = days := by
  obtain ⟨month, day, length, hdate, -, -, htotal⟩ := ofDays_spec days
  rw [hdate, toDays]
  simp only [Nat.add_sub_cancel, ← List.sum_eq_foldl]
  omega

theorem isValid_ofDays (days : Int) : (ofDays days).isValid = true := by
  obtain ⟨month, day, length, hdate, hlength, hlt, -⟩ := ofDays_spec days
  rw [hdate, isValid]
  simp only [hlength, decide_eq_true_eq]
  omega

theorem month_ofDays_lt (days : Int) : (ofDays days).month < 100 := by
  obtain ⟨month, day, length, hdate, hlength, -, -⟩ := ofDays_spec days
  have := (List.getElem?_eq_some_iff.mp hlength).1
  rw [length_monthLengths] at this
  rw [hdate]
  dsimp only
  omega

theorem day_ofDays_lt (days : Int) : (ofDays days).day < 100 := by
  obtain ⟨month, day, length, hdate, hlength, hlt, -⟩ := ofDays_spec days
  have hle : ∀ leapYear, ∀ length ∈ monthLengths leapYear, length ≤ 31 := by decide
  have := hle _ length (List.mem_of_getElem? hlength)
  rw [hdate]
  dsimp only
  omega

end Date

/-! ## 2. Reading what was written -/

namespace Instant

/-- The year of the date of an instant. -/
def year (instant : Instant) : Int := (Date.ofDays (instant.seconds / 86400)).year

namespace ReadingLemmas

variable {rest : List Char}

theorem isBlank_of_isDigit {c : Char} (h : Text.isDigit c = true) : Text.isBlank c = false := by
  have := Text.isDigit_iff.mp h
  simp only [Text.isBlank, Bool.or_eq_false_iff, Bool.and_eq_false_iff, decide_eq_false_iff_not,
    beq_eq_false_iff_ne]
  omega

theorem skipBlank_digits {digits : List Char} (hne : digits ≠ [])
    (h : ∀ c ∈ digits, Text.isDigit c = true) :
    Text.skipBlank (digits ++ rest) = digits ++ rest := by
  obtain ⟨c, digits, rfl⟩ := List.exists_cons_of_ne_nil hne
  have hc := isBlank_of_isDigit (h c List.mem_cons_self)
  simp [Text.skipBlank, hc]

/-- A run of digits is read to its end, or up to the width. -/
theorem readDigits_append {width : Nat} {digits : List Char} (hne : digits ≠ [])
    (h : ∀ c ∈ digits, Text.isDigit c = true) (hwidth : digits.length ≤ width)
    (hend : digits.length = width ∨ Text.Stops Text.isDigit rest) :
    readDigits width (digits ++ rest) = some (Text.ofDigits digits, rest) := by
  have htake : (digits ++ rest).take width = digits ++ rest.take (width - digits.length) := by
    rw [List.take_append, List.take_of_length_le hwidth]
  have hstops : Text.Stops Text.isDigit (rest.take (width - digits.length)) := by
    rcases hend with hfull | hstop
    · simp [hfull]
    · cases rest with
      | nil => simp
      | cons c rest => cases width - digits.length <;> simp_all
  have hrun : ((digits ++ rest).take width).takeWhile Text.isDigit = digits := by
    rw [htake, Text.takeWhile_append_stops h hstops]
  have hempty : digits.isEmpty = false := by simpa using hne
  simp [readDigits, hrun, hempty]

theorem readField_padded {value : Nat} (h : value < 100) :
    readField 2 (Text.padded 2 value ++ rest) = some (value, rest) := by
  have hlength : (Text.padded 2 value).length = 2 := Text.length_padded (by decide) h
  have hdigits : ∀ c ∈ Text.padded 2 value, Text.isDigit c = true := fun _ hc =>
    Text.isDigit_of_mem_padded hc
  rw [readField, skipBlank_digits (Text.padded_ne_nil 2 value) hdigits,
    readDigits_append (Text.padded_ne_nil 2 value) hdigits (Nat.le_of_eq hlength) (.inl hlength),
    Text.ofDigits_padded]

theorem readPart_padded {separator : Char} (hsep : Text.isBlank separator = false) {value : Nat}
    (h : value < 100) :
    readPart separator (separator :: (Text.padded 2 value ++ rest)) = some (value, rest) := by
  have hskip : Text.skipBlank (separator :: (Text.padded 2 value ++ rest)) =
      separator :: (Text.padded 2 value ++ rest) := by
    simp [Text.skipBlank, hsep]
  rw [readPart, hskip]
  simp only [if_true, readField_padded h]

theorem readYear_yearText (year : Int) (hstop : Text.Stops Text.isDigit rest) :
    readYear (yearText year ++ rest) = some (year, rest) := by
  have hdigits : ∀ value, ∀ c ∈ Text.padded 4 value, Text.isDigit c = true := fun _ _ hc =>
    Text.isDigit_of_mem_padded hc
  have hsigned : ∀ value, readDigits (Text.padded 4 value ++ rest).length
      (Text.padded 4 value ++ rest) = some (value, rest) := fun value => by
    rw [readDigits_append (Text.padded_ne_nil 4 value) (hdigits value) (by simp) (.inr hstop),
      Text.ofDigits_padded]
  -- four digits have no sign; other years have a sign and as many digits as they need
  by_cases hplain : 0 ≤ year ∧ year ≤ 9999
  · have hlength : (Text.padded 4 year.toNat).length = 4 :=
      Text.length_padded (by decide) (by omega)
    obtain ⟨c, digits, hcons⟩ := List.exists_cons_of_ne_nil (Text.padded_ne_nil 4 year.toNat)
    have hc := Text.isDigit_iff.mp (hdigits year.toNat c (hcons ▸ List.mem_cons_self))
    have hread : readDigits 4 (Text.padded 4 year.toNat ++ rest) = some (year.toNat, rest) := by
      rw [readDigits_append (Text.padded_ne_nil 4 _) (hdigits _) (Nat.le_of_eq hlength)
        (.inl hlength), Text.ofDigits_padded]
    have hminus : c ≠ '-' := by rintro rfl; exact absurd hc (by decide)
    have hplus : c ≠ '+' := by rintro rfl; exact absurd hc (by decide)
    rw [yearText, if_pos hplain, readYear, skipBlank_digits (Text.padded_ne_nil 4 _) (hdigits _)]
    split
    · rename_i heq
      rw [hcons] at heq
      exact absurd (List.cons.inj heq).1 hminus
    · rename_i heq
      rw [hcons] at heq
      exact absurd (List.cons.inj heq).1 hplus
    · simp [hread, Int.toNat_of_nonneg hplain.1]
  · have hskip : ∀ sign, sign = '-' ∨ sign = '+' → ∀ cs,
        Text.skipBlank (sign :: cs) = sign :: cs := by
      rintro sign (rfl | rfl) cs <;> rfl
    by_cases hneg : year < 0
    · have hvalue : -(year.natAbs : Int) = year := by omega
      rw [yearText, if_neg hplain, if_pos hneg, List.cons_append, readYear, hskip _ (.inl rfl)]
      simp only [hsigned, Option.map_some, hvalue]
    · have hvalue : (year.natAbs : Int) = year := by omega
      rw [yearText, if_neg hplain, if_neg hneg, List.cons_append, readYear, hskip _ (.inr rfl)]
      simp only [hsigned, Option.map_some, hvalue]

theorem readDate_dateText (days : Int) :
    readDate (dateText (.ofDays days) ++ rest) = some (.ofDays days, rest) := by
  have hsep : Text.isBlank '-' = false := by decide
  have hyear := @readYear_yearText ('-' :: (Text.padded 2 (Date.ofDays days).month ++
      '-' :: (Text.padded 2 (Date.ofDays days).day ++ rest))) (Date.ofDays days).year
    (by simp; decide)
  simp only [readDate, dateText, List.append_assoc, List.cons_append, hyear,
    readPart_padded hsep (Date.month_ofDays_lt days),
    readPart_padded hsep (Date.day_ofDays_lt days)]

/-- The fraction of a second is read to its end. -/
theorem readFraction_fractionText {nanos : Nat} (h : nanos < nanosPerSecond)
    (hstop : Text.Stops (fun c => Text.isDigit c || c == '.') rest) :
    readFraction (fractionText nanos ++ rest) = some (nanos, rest) := by
  have hdigits : Text.Stops Text.isDigit rest := by
    cases rest with
    | nil => simp
    | cons c rest => simp_all
  have hpoint : ∀ width value, 0 < width → width ≤ 9 → value < 10 ^ width →
      readFraction ('.' :: (Text.padded width value ++ rest)) =
        some (value * Nat.pow 10 (9 - width), rest) := by
    intro width value hpos hwidth hvalue
    have hlength : (Text.padded width value).length = width := Text.length_padded hpos hvalue
    have hrun := Text.takeWhile_append_stops
      (fun _ hc => Text.isDigit_of_mem_padded hc : ∀ c ∈ Text.padded width value, _) hdigits
    have hkept : (Text.padded width value).take 9 = Text.padded width value :=
      List.take_of_length_le (by omega)
    simp [readFraction, hrun, hkept, Text.padded_ne_nil, hlength]
  unfold nanosPerSecond at h
  unfold fractionText
  split
  · rename_i hzero
    subst hzero
    cases rest with
    | nil => rfl
    | cons c rest =>
      have hc : c ≠ '.' := by
        rintro rfl
        simp at hstop
      simp [readFraction, hc]
  · split
    · rw [List.cons_append, hpoint 3 _ (by decide) (by decide) (by omega)]
      simp only [Option.some.injEq, Prod.mk.injEq, and_true, Nat.pow_eq]
      omega
    · split
      · rw [List.cons_append, hpoint 6 _ (by decide) (by decide) (by omega)]
        simp only [Option.some.injEq, Prod.mk.injEq, and_true, Nat.pow_eq]
        omega
      · rw [List.cons_append, hpoint 9 _ (by decide) (by decide) (by omega)]
        simp

/-- A time of day is read to its end. A leap second is read as the one after second 59. -/
theorem readTime_timeText {secondOfDay nanos : Nat} (hday : secondOfDay < 86400)
    (hnanos : nanos < 2 * nanosPerSecond) (hleap : nanosPerSecond ≤ nanos → secondOfDay % 60 = 59)
    (hstop : Text.Stops (fun c => Text.isDigit c || c == '.') rest) :
    readTime (timeText secondOfDay nanos ++ rest) = some (secondOfDay, nanos, rest) := by
  have hsep : Text.isBlank ':' = false := by decide
  have hsecond : secondOfDay % 60 + nanos / nanosPerSecond < 100 := by
    unfold nanosPerSecond at *
    omega
  have hfraction := readFraction_fractionText
    (show nanos % nanosPerSecond < nanosPerSecond from Nat.mod_lt _ (by decide)) hstop
  simp only [readTime, timeText, List.append_assoc, List.cons_append,
    readField_padded (show secondOfDay / 3600 < 100 by omega),
    readPart_padded hsep (show secondOfDay / 60 % 60 < 100 by omega),
    readPart_padded hsep hsecond, hfraction]
  unfold nanosPerSecond at *
  rw [if_neg (by omega)]
  split
  · simp only [Option.some.injEq, Prod.mk.injEq, and_true]
    omega
  · simp only [Option.some.injEq, Prod.mk.injEq, and_true]
    omega

end ReadingLemmas

open ReadingLemmas

theorem ofChars?_bareText (instant : Instant) (h : isYear instant.year = true) :
    ofChars? (instant.bareText ++ ['Z']) = some instant := by
  have hdate := @readDate_dateText
    ('T' :: (timeText (instant.seconds % 86400).toNat instant.nanos ++ ['Z']))
    (instant.seconds / 86400)
  have hleap : nanosPerSecond ≤ instant.nanos → (instant.seconds % 86400).toNat % 60 = 59 := by
    intro hfull
    have := instant.leap hfull
    omega
  have hz : Text.Stops (fun c => Text.isDigit c || c == '.') ['Z'] := by
    simp only [Text.stops_cons]
    decide
  have htime := readTime_timeText (show (instant.seconds % 86400).toNat < 86400 by omega)
    instant.nanos_lt hleap hz
  have hoffset : readOffset (Text.skipBlank ['Z']) = some (0, []) := by decide
  have hseconds : (Date.ofDays (instant.seconds / 86400)).toDays * 86400 +
      ((instant.seconds % 86400).toNat : Int) - 0 = instant.seconds := by
    rw [Date.toDays_ofDays]
    omega
  have hof : of? instant.seconds instant.nanos = some instant := by
    rw [of?, dif_pos ⟨instant.nanos_lt, instant.leap⟩]
  simp only [ofChars?, bareText, List.append_assoc, List.cons_append, hdate, htime, hoffset]
  simp only [ofLocal?, hseconds, Date.isValid_ofDays]
  rw [year] at h
  simp [Text.skipBlank, h, hof]

/-- The written form of an instant is read back. -/
theorem ofText?_toText {instant : Instant} (h : isYear instant.year = true) :
    ofText? instant.toText = some instant := by
  rw [ofText?, toText, String.toList_ofList, ofChars?_bareText instant h]

/-! ## 3. What can be read -/

theorem isYear_of_ofText? {text : String} {instant : Instant} (h : ofText? text = some instant) :
    isYear instant.year = true := by
  have hlocal : ∀ {date secondOfDay nanos offset},
      ofLocal? date secondOfDay nanos offset = some instant → isYear instant.year = true := by
    intro date secondOfDay nanos offset hread
    simp only [ofLocal?, of?] at hread
    split at hread
    · split at hread
      · split at hread
        · cases hread
          assumption
        · cases hread
      · cases hread
    · cases hread
  simp only [ofText?, ofChars?] at h
  -- whichever parts are read, `ofLocal?` puts them together
  repeat' split at h
  all_goals first | exact hlocal h | cases h

end Instant

end LeaseLog
