import LeaseLog.Ident
import LeaseLog.Proofs.Text.Numerals

/-!
# Identifiers read back

The hyphenated form of an identifier is told apart from the other accepted forms by its length and
by its first character.

Results:
1. `unhyphenate?_hyphenate`: groups that were cut out of digits are the digits again.
2. `Ident.ofText?_toText`: the written form of an identifier is read back.
-/

namespace LeaseLog.Ident

/-! ## 1. Groups of digits -/

theorem unhyphenate?_hyphenate {width : Nat} {widths : List Nat} {digits : List Char}
    (h : digits.length = (width :: widths).sum) :
    unhyphenate? (width :: widths) (hyphenate (width :: widths) digits) = some digits := by
  induction widths generalizing width digits with
  | nil =>
    have hlen : digits.length = width := by simpa using h
    simp [hyphenate, unhyphenate?, ← hlen]
  | cons next widths ih =>
    have hlen : digits.length = width + (next :: widths).sum := by simpa using h
    have htake : (digits.take width).length = width := by
      rw [List.length_take]
      omega
    have hrest : (digits.drop width).length = (next :: widths).sum := by
      rw [List.length_drop]
      omega
    -- the first group ends where the first hyphen stands
    have hdrop : (hyphenate (width :: next :: widths) digits).drop width =
        '-' :: hyphenate (next :: widths) (digits.drop width) := by
      rw [hyphenate, List.drop_append_of_le_length (Nat.le_of_eq htake.symm), List.drop_of_length_le
        (Nat.le_of_eq htake), List.nil_append]
      simp
    have hfront : (hyphenate (width :: next :: widths) digits).take width = digits.take width := by
      rw [hyphenate, List.take_append_of_le_length (Nat.le_of_eq htake.symm), List.take_of_length_le
        (Nat.le_of_eq htake)]
      simp
    rw [unhyphenate?, hdrop, hfront]
    · simp [ih hrest]
    · simp

theorem length_hyphenate {width : Nat} {widths : List Nat} {digits : List Char}
    (h : digits.length = (width :: widths).sum) :
    (hyphenate (width :: widths) digits).length = digits.length + widths.length := by
  induction widths generalizing width digits with
  | nil => simp_all [hyphenate]
  | cons next widths ih =>
    have hlen : digits.length = width + (next :: widths).sum := by simpa using h
    have hrest : (digits.drop width).length = (next :: widths).sum := by
      rw [List.length_drop]
      omega
    rw [hyphenate, List.length_append, List.length_cons, ih hrest, hrest, List.length_take,
      List.length_cons]
    · omega
    · simp

/-! ## 2. The written form -/

theorem ofDigits?_hex (id : Ident) : ofDigits? (Text.hex 32 id.toNat) = some id := by
  have hmod : id.toNat % 16 ^ 32 = id.toNat := Nat.mod_eq_of_lt id.isLt
  simp only [ofDigits?, Text.hex_length, if_true, Text.ofHex?_hex, hmod, dif_pos id.isLt]

theorem mem_hex {width value : Nat} {c : Char} (h : c ∈ Text.hex width value) :
    ∃ digit < 16, c = Text.hexDigit digit := by
  induction width generalizing value with
  | zero => simp [Text.hex] at h
  | succ width ih =>
    rcases List.mem_append.mp h with h | h
    · exact ih h
    · exact ⟨value % 16, Nat.mod_lt _ (by decide), List.mem_singleton.mp h⟩

/-- The first character is neither a brace nor the start of `urn`. -/
theorem toChars_eq_cons (id : Ident) :
    ∃ c rest, id.toChars = c :: rest ∧ c ≠ '{' ∧ c.toLower ≠ 'u' := by
  obtain ⟨c, digits, hdigits⟩ := List.exists_cons_of_length_eq_add_one (Text.hex_length 32 id.toNat)
  obtain ⟨digit, hlt, rfl⟩ := mem_hex (hdigits ▸ List.mem_cons_self : c ∈ Text.hex 32 id.toNat)
  refine ⟨Text.hexDigit digit, _, by rw [toChars, hdigits]; rfl, ?_⟩
  interval_cases digit <;> decide

theorem braced?_cons {c : Char} {rest : List Char} (h : c ≠ '{') : braced? (c :: rest) = none := by
  unfold braced?
  split
  · rename_i heq
    exact absurd (List.cons.inj heq).1 h
  · rfl

theorem afterUrn?_cons {c : Char} {rest : List Char} (h : c.toLower ≠ 'u') :
    afterUrn? (c :: rest) = none := by
  have hurn : "urn:uuid:".toList = ['u', 'r', 'n', ':', 'u', 'u', 'i', 'd', ':'] := by decide
  simp [afterUrn?, hurn, h]

/-- The written form of an identifier is read back. -/
@[simp] theorem ofText?_toText (id : Ident) : ofText? id.toText = some id := by
  obtain ⟨c, rest, hcons, hbrace, hurn⟩ := id.toChars_eq_cons
  have hwidths : (Text.hex 32 id.toNat).length = [8, 4, 4, 4, 12].sum := Text.hex_length 32 id.toNat
  have hlength : id.toChars.length ≠ 32 := by
    rw [toChars, groupWidths, length_hyphenate hwidths, Text.hex_length]
    decide
  have hbraced : braced? id.toChars = none := by rw [hcons, braced?_cons hbrace]
  have hafter : afterUrn? id.toChars = none := by rw [hcons, afterUrn?_cons hurn]
  have hread : ofHyphenated? id.toChars = some id := by
    rw [ofHyphenated?, toChars, groupWidths, unhyphenate?_hyphenate hwidths, Option.bind_some,
      ofDigits?_hex]
  simp only [ofText?, toText, String.toList_ofList, ofChars?, if_neg hlength, hbraced, hafter,
    hread]

end LeaseLog.Ident
