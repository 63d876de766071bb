import LeaseLog.Json.Reading
import LeaseLog.Proofs.Json.Shortest

/-!
# Numbers read back

What is printed for a number is a numeral, and a numeral is read up to its end. An integer that fits
64 bits is read as itself. A floating point number is read as some floating point number, though not
always as itself.

Results:
1. `readNumber_toChars`: a numeral is read to its end.
2. `toChars_numeral`: what is printed for a number is the text of its numeral.
3. `ofNumeral_integer`, `ofNumeral_real`: what the numeral of a number is read as.
4. `Number.Valid.of_ofNumeral`: whatever is read is a number that can be printed and read again.
-/

namespace LeaseLog

/-! ## Definitions -/

namespace Numeral

/-- The text of a fraction. -/
def fractionChars : List Char → List Char
  | [] => []
  | digits => '.' :: digits

/-- The text of an exponent; its sign is always written. -/
def exponentChars : Option (Bool × List Char) → List Char
  | none => []
  | some (down, digits) => 'e' :: (if down then '-' else '+') :: digits

/-- The text of a numeral behind its sign. -/
def unsignedChars (numeral : Numeral) : List Char :=
  numeral.whole ++ (fractionChars numeral.fraction ++ exponentChars numeral.exponent)

/-- The text of a numeral. -/
def toChars (numeral : Numeral) : List Char :=
  if numeral.negative then '-' :: numeral.unsignedChars else numeral.unsignedChars

/-- Digits that do not start with a zero, unless they are one zero, and digits behind the point and
in the exponent. -/
structure WellFormed (numeral : Numeral) : Prop where
  whole_digits : ∀ c ∈ numeral.whole, Text.isDigit c = true
  whole_ne : numeral.whole ≠ []
  whole_zero : ∀ rest, numeral.whole = '0' :: rest → rest = []
  fraction_digits : ∀ c ∈ numeral.fraction, Text.isDigit c = true
  exponent_digits : ∀ sign digits, numeral.exponent = some (sign, digits) →
    digits ≠ [] ∧ ∀ c ∈ digits, Text.isDigit c = true

/-- Whether a character may continue a numeral. -/
def continues (c : Char) : Bool := Text.isDigit c || c == '.' || c == 'e' || c == 'E'

end Numeral

namespace Number

/-- The numeral of decimal digits times a power of ten. -/
def layoutNumeral (negative : Bool) (digits : List Char) (power : Int) : Numeral :=
  let point : Int := digits.length + power
  if 0 ≤ power ∧ point ≤ 16 then
    ⟨negative, digits ++ List.replicate power.toNat '0', ['0'], none⟩
  else if 0 < point ∧ point ≤ 16 then
    ⟨negative, digits.take point.toNat, digits.drop point.toNat, none⟩
  else if -5 < point ∧ point ≤ 0 then
    ⟨negative, ['0'], List.replicate point.natAbs '0' ++ digits, none⟩
  else
    ⟨negative, digits.take 1, digits.drop 1,
      some (decide (point - 1 < 0), Text.decimal (point - 1).natAbs)⟩

/-- The numeral that is printed for a number. -/
def numeral : Number → Numeral
  | .integer value => ⟨decide (value < 0), Text.decimal value.natAbs, [], none⟩
  | .real value =>
    if value.mantissa = 0 then ⟨value.negative, ['0'], ['0'], none⟩
    else layoutNumeral value.negative (Text.decimal value.shortest.1) value.shortest.2

/-- What the numbers of a text can be: integers of 64 bits, signed or unsigned, and floating point
numbers of the format. -/
def Valid : Number → Prop
  | .integer value => -2 ^ 63 ≤ value ∧ value < 2 ^ 64
  | .real value => value.Finite

end Number

/-! ## 1. Numerals read to their end -/

namespace Reading

variable {digits rest : List Char}

theorem readSomeDigits_append (hne : digits ≠ []) (h : ∀ c ∈ digits, Text.isDigit c = true)
    (hrest : Text.Stops Text.isDigit rest) :
    readSomeDigits (digits ++ rest) = some (digits, rest) := by
  rw [readSomeDigits, readDigits, Text.takeWhile_append_stops h hrest,
    Text.dropWhile_append_stops h hrest]
  split
  · rename_i heq
    exact absurd (Prod.mk.inj heq).1 hne
  · rfl

theorem readWhole_append (hne : digits ≠ []) (h : ∀ c ∈ digits, Text.isDigit c = true)
    (hzero : ∀ rest, digits = '0' :: rest → rest = []) (hrest : Text.Stops Text.isDigit rest) :
    readWhole (digits ++ rest) = some (digits, rest) := by
  rw [readWhole, readSomeDigits_append hne h hrest]
  split
  · rename_i heq
    have := hzero _ (Prod.mk.inj (Option.some.inj heq)).1
    cases this
  · rfl

theorem stops_of_continues {p : Char → Bool} (h : Text.Stops Numeral.continues rest)
    (hp : ∀ c, p c = true → Numeral.continues c = true) : Text.Stops p rest := by
  cases rest with
  | nil => simp
  | cons c rest =>
    rw [Text.stops_cons] at h ⊢
    by_contra htrue
    rw [hp c (by simpa using htrue)] at h
    cases h

theorem stops_exponentChars {exponent : Option (Bool × List Char)}
    (h : Text.Stops Numeral.continues rest) :
    Text.Stops Text.isDigit (Numeral.exponentChars exponent ++ rest) := by
  cases exponent with
  | none => exact stops_of_continues h fun c hc => by simp [Numeral.continues, hc]
  | some e => simp [Numeral.exponentChars]; decide

theorem stops_fractionChars {fraction : List Char} (h : Text.Stops Text.isDigit rest) :
    Text.Stops Text.isDigit (Numeral.fractionChars fraction ++ rest) := by
  cases fraction with
  | nil => exact h
  | cons c digits => simp [Numeral.fractionChars]; decide

theorem readFraction_append (h : ∀ c ∈ digits, Text.isDigit c = true)
    (hrest : Text.Stops Text.isDigit rest) (hpoint : Text.Stops (· == '.') rest) :
    readFraction (Numeral.fractionChars digits ++ rest) = some (digits, rest) := by
  cases digits with
  | nil =>
    rw [Numeral.fractionChars, List.nil_append]
    unfold readFraction
    split
    · simp at hpoint
    · rfl
  | cons c digits => exact readSomeDigits_append (List.cons_ne_nil _ _) h hrest

theorem readExponent_append {exponent : Option (Bool × List Char)}
    (h : ∀ sign digits, exponent = some (sign, digits) →
      digits ≠ [] ∧ ∀ c ∈ digits, Text.isDigit c = true)
    (hrest : Text.Stops Numeral.continues rest) :
    readExponent (Numeral.exponentChars exponent ++ rest) = some (exponent, rest) := by
  cases exponent with
  | none =>
    cases rest with
    | nil => rfl
    | cons c rest =>
      have hc : ¬(c = 'e' ∨ c = 'E') := by
        rintro (rfl | rfl) <;> simp [Numeral.continues] at hrest
      rw [Numeral.exponentChars, List.nil_append, readExponent, if_neg hc]
  | some exponent =>
    obtain ⟨down, digits⟩ := exponent
    obtain ⟨hne, hdigits⟩ := h down digits rfl
    have hread := readSomeDigits_append hne hdigits
      (stops_of_continues hrest fun c hc => by simp [Numeral.continues, hc])
    cases down <;> simp [Numeral.exponentChars, readExponent, readSign, hread]

theorem readUnsigned_append {numeral : Numeral} (h : numeral.WellFormed)
    (hrest : Text.Stops Numeral.continues rest) :
    readUnsigned numeral.negative (numeral.unsignedChars ++ rest) =
      (.number (Number.ofNumeral numeral), rest) := by
  have hexponent : Text.Stops Text.isDigit (Numeral.exponentChars numeral.exponent ++ rest) :=
    stops_exponentChars hrest
  have hpoint : Text.Stops (· == '.') (Numeral.exponentChars numeral.exponent ++ rest) := by
    cases numeral.exponent with
    | none => exact stops_of_continues hrest fun c hc => by simp_all [Numeral.continues]
    | some e => simp [Numeral.exponentChars]
  simp only [readUnsigned, Numeral.unsignedChars, List.append_assoc,
    readWhole_append h.whole_ne h.whole_digits h.whole_zero (stops_fractionChars hexponent),
    readFraction_append h.fraction_digits hexponent hpoint,
    readExponent_append h.exponent_digits hrest]

/-- A numeral is read to its end. -/
theorem readNumber_toChars {numeral : Numeral} (h : numeral.WellFormed)
    (hrest : Text.Stops Numeral.continues rest) :
    readNumber (numeral.toChars ++ rest) = (.number (Number.ofNumeral numeral), rest) := by
  rw [← readUnsigned_append h hrest, Numeral.toChars]
  split
  · rename_i hnegative
    rw [hnegative, List.cons_append, readNumber]
  · rename_i hnegative
    obtain ⟨c, digits, hwhole⟩ := List.exists_cons_of_ne_nil h.whole_ne
    have hc := h.whole_digits c (hwhole ▸ List.mem_cons_self)
    rw [Bool.not_eq_true] at hnegative
    rw [hnegative]
    unfold readNumber
    split
    · rename_i heq
      rw [Numeral.unsignedChars, hwhole, List.cons_append, List.cons_append] at heq
      rw [(List.cons.inj heq).1] at hc
      exact absurd hc (by decide)
    · rfl

end Reading

/-! ## 2. The numeral of a number -/

namespace Number

variable {negative : Bool} {digits : List Char} {power : Int}

theorem fractionChars_of_ne (h : digits ≠ []) : Numeral.fractionChars digits = '.' :: digits := by
  cases digits with
  | nil => exact absurd rfl h
  | cons c digits => rfl

theorem unsignedChars_layoutNumeral (hne : digits ≠ []) :
    (layoutNumeral negative digits power).unsignedChars = Binary64.layout digits power := by
  unfold layoutNumeral Binary64.layout
  dsimp only
  split
  · simp [Numeral.unsignedChars, Numeral.fractionChars, Numeral.exponentChars]
  · split
    · have hlt : (digits.length + power).toNat < digits.length := by omega
      have hfraction : digits.drop (digits.length + power).toNat ≠ [] := by simpa using hlt
      simp [Numeral.unsignedChars, fractionChars_of_ne hfraction, Numeral.exponentChars]
    · split
      · have hfraction : List.replicate (digits.length + power).natAbs '0' ++ digits ≠ [] := by
          simp [hne]
        simp [Numeral.unsignedChars, fractionChars_of_ne hfraction, Numeral.exponentChars]
      · obtain ⟨c, digits, rfl⟩ := List.exists_cons_of_ne_nil hne
        cases digits <;>
          simp [Numeral.unsignedChars, Numeral.fractionChars, Numeral.exponentChars,
            Binary64.pointAfterFirst, Binary64.exponentPart]

theorem layoutNumeral_negative : (layoutNumeral negative digits power).negative = negative := by
  unfold layoutNumeral
  dsimp only
  split
  · rfl
  · split
    · rfl
    · split <;> rfl

/-- What is printed for a number is the text of its numeral. -/
theorem toChars_numeral (number : Number) : number.toChars = number.numeral.toChars := by
  cases number with
  | integer value =>
    simp only [toChars, Text.signedDecimal, numeral, Numeral.toChars, Numeral.unsignedChars,
      Numeral.fractionChars, Numeral.exponentChars, List.append_nil, decide_eq_true_eq]
  | real value =>
    by_cases hzero : value.mantissa = 0
    · simp [toChars, Binary64.toChars, numeral, hzero, Numeral.toChars, Numeral.unsignedChars,
        Numeral.fractionChars, Numeral.exponentChars]
    · simp only [toChars, Binary64.toChars, numeral, if_neg hzero, Numeral.toChars,
        layoutNumeral_negative, unsignedChars_layoutNumeral (Text.decimal_ne_nil _)]

theorem wellFormed_layoutNumeral {value : Nat} (hne : value ≠ 0) :
    (layoutNumeral negative (Text.decimal value) power).WellFormed := by
  obtain ⟨c, rest, hdecimal, hzero, hc⟩ := Text.decimal_eq_cons hne
  have hdigits : ∀ c ∈ Text.decimal value, Text.isDigit c = true := fun _ hc =>
    Text.isDigit_of_mem_decimal hc
  have hlength := Text.length_decimal_pos value
  have hnoExponent : ∀ sign digits, (none : Option (Bool × List Char)) = some (sign, digits) →
      digits ≠ [] ∧ ∀ c ∈ digits, Text.isDigit c = true := by simp
  unfold layoutNumeral
  dsimp only
  split
  · refine ⟨?_, by simp [hdecimal], ?_, by simp; decide, hnoExponent⟩
    · intro d hd
      rcases List.mem_append.mp hd with hd | hd
      · exact hdigits d hd
      · exact Text.isDigit_of_mem_replicate hd
    · intro tail htail
      rw [hdecimal, List.cons_append] at htail
      exact absurd (List.cons.inj htail).1 hzero
  · split
    · obtain ⟨point, hpoint⟩ := Nat.exists_eq_succ_of_ne_zero
        (show ((Text.decimal value).length + power).toNat ≠ 0 by omega)
      rw [hpoint]
      refine ⟨fun d hd => hdigits d (List.mem_of_mem_take hd), by simp [hdecimal], ?_,
        fun d hd => hdigits d (List.mem_of_mem_drop hd), hnoExponent⟩
      intro tail htail
      rw [hdecimal, List.take_succ_cons] at htail
      exact absurd (List.cons.inj htail).1 hzero
    · split
      · refine ⟨by simp; decide, by simp, fun tail htail => (List.cons.inj htail).2.symm, ?_,
          hnoExponent⟩
        intro d hd
        rcases List.mem_append.mp hd with hd | hd
        · exact Text.isDigit_of_mem_replicate hd
        · exact hdigits d hd
      · refine ⟨fun d hd => hdigits d (List.mem_of_mem_take hd), by simp [hdecimal], ?_,
          fun d hd => hdigits d (List.mem_of_mem_drop hd), ?_⟩
        · intro tail htail
          rw [hdecimal] at htail
          exact absurd (List.cons.inj htail).1 hzero
        · intro sign digits hexponent
          cases hexponent
          exact ⟨Text.decimal_ne_nil _, fun _ hc => Text.isDigit_of_mem_decimal hc⟩

/-- What is printed for a number of a text is well formed. -/
theorem wellFormed_numeral {number : Number} (h : number.Valid) : number.numeral.WellFormed := by
  cases number with
  | integer value =>
    refine ⟨fun _ hc => Text.isDigit_of_mem_decimal hc, Text.decimal_ne_nil _, ?_,
      by simp [numeral], by simp [numeral]⟩
    intro rest hrest
    by_cases hzero : value.natAbs = 0
    · simp only [numeral, hzero, Text.decimal_zero] at hrest
      exact (List.cons.inj hrest).2.symm
    · obtain ⟨c, tail, hdecimal, hc, -⟩ := Text.decimal_eq_cons hzero
      simp only [numeral, hdecimal] at hrest
      exact absurd (List.cons.inj hrest).1 hc
  | real value =>
    rw [numeral]
    split
    · exact ⟨by simp; decide, by simp, fun rest hrest => (List.cons.inj hrest).2.symm,
        by simp; decide, by simp⟩
    · rename_i hne
      exact wellFormed_layoutNumeral (Binary64.shortest_readable h hne).1

/-! ## 3. What numerals are read as -/

/-- Digits that fit are all taken. -/
theorem extend_eq {significand : Nat} {digits : List Char}
    (h : significand * 10 ^ digits.length + Text.ofDigits digits ≤ maxUnsigned) :
    extend significand digits = (significand * 10 ^ digits.length + Text.ofDigits digits, []) := by
  induction digits generalizing significand with
  | nil => simp [extend]
  | cons c digits ih =>
    have hsplit : significand * 10 ^ (c :: digits).length + Text.ofDigits (c :: digits) =
        (significand * 10 + Text.digitValue c) * 10 ^ digits.length + Text.ofDigits digits := by
      rw [show c :: digits = [c] ++ digits from rfl, Text.ofDigits_append, Text.ofDigits_singleton,
        List.length_append, List.length_singleton, Nat.pow_add, Nat.pow_one]
      ring
    rw [hsplit] at h ⊢
    have hle : significand * 10 + Text.digitValue c ≤ maxUnsigned := by
      refine le_trans ?_ (le_trans (Nat.le_add_right _ (Text.ofDigits digits)) h)
      exact Nat.le_mul_of_pos_right _ (Nat.pow_pos (by decide))
    rw [extend]
    simp only [if_pos hle]
    exact ih h

theorem extend_le {significand : Nat} {digits : List Char} (h : significand ≤ maxUnsigned) :
    (extend significand digits).1 ≤ maxUnsigned := by
  induction digits generalizing significand with
  | nil => exact h
  | cons c digits ih =>
    rw [extend]
    split
    · rename_i hle
      exact ih hle
    · exact h

end Number

namespace Numeral

/-- The digits of a numeral as one number. -/
def significand (numeral : Numeral) : Nat := Text.ofDigits (numeral.whole ++ numeral.fraction)

/-- The power of ten of a numeral. -/
def power (numeral : Numeral) : Int :=
  (match numeral.exponent with
    | none => 0
    | some (down, digits) => if down then -(Text.ofDigits digits : Int) else Text.ofDigits digits) -
  numeral.fraction.length

end Numeral

namespace Number

/-- A numeral with a fraction or an exponent is a floating point number, unless its decimal is too
large. -/
theorem ofNumeral_eq_real {numeral : Numeral} (hfits : numeral.significand ≤ maxUnsigned)
    (hpart : numeral.fraction ≠ [] ∨ numeral.exponent ≠ none)
    (hup : ∀ digits, numeral.exponent = some (false, digits) → Text.ofDigits digits ≤ maxExponent)
    (hread : ∃ real, Binary64.ofDecimal numeral.negative numeral.significand numeral.power =
      some real) :
    ∃ real, ofNumeral numeral = some (.real real) := by
  rw [Numeral.significand, Text.ofDigits_append] at hfits
  have hwhole : extend 0 numeral.whole = (Text.ofDigits numeral.whole, []) := by
    have hle : Text.ofDigits numeral.whole ≤ maxUnsigned := by
      refine le_trans ?_ (le_trans (Nat.le_add_right _ _) hfits)
      exact Nat.le_mul_of_pos_right _ (Nat.pow_pos (by decide))
    rw [extend_eq (by simpa using hle)]
    simp
  have hfraction : extend (Text.ofDigits numeral.whole) numeral.fraction =
      (numeral.significand, []) := by
    rw [extend_eq hfits, Numeral.significand, Text.ofDigits_append]
  have hnot : ¬(numeral.fraction = [] ∧ numeral.exponent = none) := by
    rintro ⟨hnil, hnone⟩
    exact hpart.elim (fun h => h hnil) (fun h => h hnone)
  obtain ⟨real, hreal⟩ := hread
  simp only [ofNumeral, hwhole, hfraction, true_and, if_neg hnot, List.length_nil, Nat.cast_zero,
    sub_zero, zero_sub]
  cases hexponent : numeral.exponent with
  | none =>
    have hpower : numeral.power = -(numeral.fraction.length : Int) := by
      simp [Numeral.power, hexponent]
    rw [scaled, ← hpower, hreal]
    exact ⟨real, rfl⟩
  | some exponent =>
    obtain ⟨down, digits⟩ := exponent
    rw [scaled]
    dsimp only
    split
    · rename_i hlarge
      cases down with
      | false => exact absurd (hup digits hexponent) (by omega)
      | true => simp
    · have hpower : numeral.power = if down then -(numeral.fraction.length : Int) -
          Text.ofDigits digits else -(numeral.fraction.length : Int) + Text.ofDigits digits := by
        cases down
        · simp [Numeral.power, hexponent]
          ring
        · simp [Numeral.power, hexponent]
          ring
      rw [← hpower, hreal]
      exact ⟨real, rfl⟩

/-- An integer of 64 bits is read as itself. -/
theorem ofNumeral_integer {value : Int} (h : (Number.integer value).Valid) :
    ofNumeral (numeral (.integer value)) = some (.integer value) := by
  have hsize : value.natAbs ≤ maxUnsigned := by
    have := h.1
    have := h.2
    unfold maxUnsigned
    norm_num at *
    omega
  have hwhole : extend 0 (Text.decimal value.natAbs) = (value.natAbs, []) := by
    rw [extend_eq (by simpa using hsize)]
    simp
  simp only [ofNumeral, numeral, hwhole, true_and, if_true, ofWhole]
  by_cases hnegative : value < 0
  · have hlow : ¬(value.natAbs = 0 ∨ Nat.pow 2 63 < value.natAbs) := by
      have := h.1
      norm_num at *
      omega
    simp only [hnegative, decide_true, Bool.not_true, Bool.false_eq_true, if_false, if_neg hlow]
    congr 2
    omega
  · simp only [hnegative, decide_false, Bool.not_false, if_true]
    congr 2
    omega

/-! ### Floating point numbers -/

/-- The decimal of a layout: digits behind zeros are the digits again, and zeros behind digits are
made up for by the power of ten. -/
theorem layoutNumeral_decimal {value : Nat} {power : Int} (negative : Bool)
    (hread : Binary64.Readable value power) :
    Binary64.Readable (layoutNumeral negative (Text.decimal value) power).significand
      (layoutNumeral negative (Text.decimal value) power).power := by
  have hlength := Text.length_decimal_pos value
  have hlt := Text.lt_ten_pow_length value
  unfold layoutNumeral
  dsimp only
  split
  · -- all places stand before the point, and there are at most sixteen of them
    rename_i hplaces
    obtain ⟨zeros, rfl⟩ := Int.eq_ofNat_of_zero_le hplaces.1
    have hsignificand : value * 10 ^ (zeros + 1) ≤ 10 ^ 17 := by
      calc value * 10 ^ (zeros + 1) ≤ 10 ^ (Text.decimal value).length * 10 ^ (zeros + 1) :=
            Nat.mul_le_mul_right _ hlt.le
        _ = 10 ^ ((Text.decimal value).length + (zeros + 1)) := (Nat.pow_add _ _ _).symm
        _ ≤ 10 ^ 17 := Nat.pow_le_pow_right (by decide) (by omega)
    have hvalue : Text.ofDigits (Text.decimal value ++ List.replicate (zeros : Int).toNat '0' ++
        ['0']) = value * 10 ^ (zeros + 1) := by
      rw [List.append_assoc, Text.ofDigits_append, Text.ofDigits_decimal, Text.ofDigits_append,
        Text.ofDigits_replicate_zero, Text.ofDigits_singleton]
      simp [Text.digitValue]
    rw [Numeral.significand, Numeral.power, hvalue]
    exact ⟨hsignificand, by simp, by simp, by simp⟩
  · split
    · rename_i hplaces hpoint
      have hpower : Numeral.power ⟨negative,
          (Text.decimal value).take ((Text.decimal value).length + power).toNat,
          (Text.decimal value).drop ((Text.decimal value).length + power).toNat, none⟩ = power := by
        simp only [Numeral.power, List.length_drop]
        omega
      rw [Numeral.significand, hpower, List.take_append_drop, Text.ofDigits_decimal]
      exact hread
    · split
      · rename_i hpoint
        have hpower : Numeral.power ⟨negative, ['0'],
            List.replicate ((Text.decimal value).length + power).natAbs '0' ++ Text.decimal value,
            none⟩ = power := by
          simp only [Numeral.power, List.length_append, List.length_replicate]
          omega
        have hvalue : Text.ofDigits (['0'] ++
            (List.replicate ((Text.decimal value).length + power).natAbs '0' ++
              Text.decimal value)) = value := by
          rw [Text.ofDigits_append, Text.ofDigits_singleton, Text.ofDigits_append,
            Text.ofDigits_replicate_zero, Text.ofDigits_decimal]
          simp [Text.digitValue]
        rw [Numeral.significand, hpower, hvalue]
        exact hread
      · have hpower : Numeral.power ⟨negative, (Text.decimal value).take 1,
            (Text.decimal value).drop 1,
            some (decide ((Text.decimal value).length + power - 1 < 0),
              Text.decimal ((Text.decimal value).length + power - 1).natAbs)⟩ = power := by
          simp only [Numeral.power, Text.ofDigits_decimal, List.length_drop, decide_eq_true_eq]
          split <;> omega
        rw [Numeral.significand, hpower, List.take_append_drop, Text.ofDigits_decimal]
        exact hread

/-- Only a numeral that would be too large has a large exponent that is not negative. -/
theorem layoutNumeral_part {value : Nat} {power : Int} (negative : Bool)
    (hread : Binary64.Readable value power) :
    ((layoutNumeral negative (Text.decimal value) power).fraction ≠ [] ∨
      (layoutNumeral negative (Text.decimal value) power).exponent ≠ none) ∧
    ∀ digits, (layoutNumeral negative (Text.decimal value) power).exponent = some (false, digits) →
      Text.ofDigits digits ≤ maxExponent := by
  have hlength : (Text.decimal value).length ≤ 18 :=
    (Text.length_decimal_le_iff (by decide)).mpr (by have := hread.digits_le; omega)
  have hpower := hread.power_le
  unfold layoutNumeral
  dsimp only
  split
  · simp
  · split
    · refine ⟨.inl ?_, by simp⟩
      have hlt : ((Text.decimal value).length + power).toNat < (Text.decimal value).length := by
        omega
      simpa using hlt
    · split
      · exact ⟨.inl (by simp [Text.decimal_ne_nil]), by simp⟩
      · refine ⟨.inr (by simp), ?_⟩
        intro digits hdigits
        obtain ⟨-, rfl⟩ := Prod.mk.inj (Option.some.inj hdigits)
        rw [Text.ofDigits_decimal]
        simp only [Option.some.injEq, Prod.mk.injEq, decide_eq_false_iff_not, and_true] at hdigits
        unfold maxExponent
        norm_num
        omega

/-- What is printed for a floating point number is read as a floating point number. -/
theorem ofNumeral_real {value : Binary64} (h : value.Finite) :
    ∃ real, ofNumeral (numeral (.real value)) = some (.real real) := by
  rw [numeral]
  split
  · refine ofNumeral_eq_real (show Text.ofDigits (['0'] ++ ['0']) ≤ maxUnsigned by decide)
      (by simp) (by simp) ?_
    exact Binary64.ofDecimal_isSome
      (⟨by decide, by decide, by decide, by decide⟩ : Binary64.Readable 0 (-1)) value.negative
  · rename_i hmantissa
    have hread := (Binary64.shortest_readable h hmantissa).2
    have hlayout := layoutNumeral_decimal value.negative hread
    obtain ⟨hpart, hup⟩ := layoutNumeral_part value.negative hread
    refine ofNumeral_eq_real ?_ hpart hup ?_
    · have := hlayout.digits_le
      unfold maxUnsigned
      norm_num at *
      omega
    · exact Binary64.ofDecimal_isSome hlayout _

/-! ## 4. Numbers of texts -/

theorem Valid.of_ofDecimal {negative : Bool} {significand : Nat} {power : Int} {number : Number}
    (h : (Binary64.ofDecimal negative significand power).map Number.real = some number) :
    number.Valid := by
  obtain ⟨real, hread, rfl⟩ := Option.map_eq_some_iff.mp h
  exact Binary64.Finite.of_ofDecimal hread

theorem Valid.of_scaled {negative : Bool} {significand : Nat} {power : Int}
    {exponent : Option (Bool × List Char)} {number : Number}
    (h : scaled negative significand power exponent = some number) : number.Valid := by
  cases exponent with
  | none => exact Valid.of_ofDecimal h
  | some exponent =>
    rw [scaled] at h
    dsimp only at h
    split at h
    · split at h
      · cases h
      · cases h
        exact Binary64.Finite.zero _
    · exact Valid.of_ofDecimal h

theorem Valid.of_ofWhole {negative : Bool} {size : Nat} {number : Number}
    (hsize : size ≤ maxUnsigned) (h : ofWhole negative size = some number) : number.Valid := by
  rw [ofWhole] at h
  split at h
  · cases h
    unfold maxUnsigned at hsize
    norm_num at hsize
    constructor <;> omega
  · split at h
    · exact Valid.of_ofDecimal h
    · rename_i hfits
      cases h
      simp only [not_or, Nat.not_lt] at hfits
      norm_num at hfits
      constructor <;> omega

/-- What is read for a numeral is a number that can be printed and read again. -/
theorem Valid.of_ofNumeral {numeral : Numeral} {number : Number}
    (h : ofNumeral numeral = some number) : number.Valid := by
  rw [ofNumeral] at h
  dsimp only at h
  split at h
  · exact Valid.of_ofWhole (extend_le (Nat.zero_le _)) h
  · exact Valid.of_scaled h

/-- What a number is read as once it was printed. -/
def reread (number : Number) : Number := (ofNumeral number.numeral).getD number

/-- What is printed for a number of a text is read as a number again. -/
theorem ofNumeral_numeral {number : Number} (h : number.Valid) :
    ofNumeral number.numeral = some number.reread := by
  obtain ⟨read, hread⟩ : ∃ read, ofNumeral number.numeral = some read := by
    cases number with
    | integer value => exact ⟨_, ofNumeral_integer h⟩
    | real value =>
      obtain ⟨real, hreal⟩ := ofNumeral_real h
      exact ⟨_, hreal⟩
  rw [reread, hread, Option.getD_some]

theorem Valid.reread {number : Number} (h : number.Valid) : number.reread.Valid :=
  Valid.of_ofNumeral (ofNumeral_numeral h)

/-- An integer of 64 bits is the same once it was printed and read. -/
@[simp] theorem reread_integer {value : Int} (h : (Number.integer value).Valid) :
    (Number.integer value).reread = .integer value := by
  rw [Number.reread, ofNumeral_integer h, Option.getD_some]

end Number

end LeaseLog
