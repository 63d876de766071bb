import LeaseLog.Json.Printer
import LeaseLog.Proofs.Json.Values

/-!
# Texts read back

The indented form of a value is read as the value, up to what printing makes of its numbers.

Results:
1. `readString_quote`: a quoted string is read to its end.
2. `readValue_pretty`: the indented form of a value is read to its end, whatever stands behind it.
3. `ofText_toPrettyText`: the indented form as a whole text is the reading of the value.
-/

namespace LeaseLog

namespace Reading

/-! ## 1. Strings -/

/-- The characters of a string that are read so far. -/
def Partial.ofChars (reversed : List Char) : Partial := ⟨reversed, none, true⟩

theorem pushUnit_ofChars {reversed : List Char} {c : Char} (h : c.toNat < 32) :
    (Partial.ofChars reversed).pushUnit c.toNat = Partial.ofChars (c :: reversed) := by
  have hhigh : isHighSurrogate c.toNat = false := by
    simp only [isHighSurrogate, Bool.and_eq_false_iff, decide_eq_false_iff_not]
    omega
  have hlow : isLowSurrogate c.toNat = false := by
    simp only [isLowSurrogate, Bool.and_eq_false_iff, decide_eq_false_iff_not]
    omega
  simp [Partial.ofChars, Partial.pushUnit, hhigh, hlow, Char.ofNat_toNat]

theorem push_ofChars (reversed : List Char) (c : Char) :
    (Partial.ofChars reversed).push c = .ofChars (c :: reversed) := by
  simp [Partial.ofChars, Partial.push]

/-- An escape of one letter stands for one character. -/
theorem readString_letter {letter plain : Char} (hletter : letter ≠ 'u')
    (hplain : unescape? letter = some plain) (reversed rest : List Char) :
    readString (.ofChars reversed) ('\\' :: letter :: rest) =
      readString (.ofChars (plain :: reversed)) rest := by
  rw [readString, hplain]
  · simp only [push_ofChars]
  · rintro a b c d tail htail -
    exact hletter htail

/-- Four hexadecimal digits stand for a control character. -/
theorem readString_unit {c : Char} (h : c.toNat < 32) (reversed rest : List Char) :
    readString (.ofChars reversed) ('\\' :: 'u' :: Text.hex 4 c.toNat ++ rest) =
      readString (.ofChars (c :: reversed)) rest := by
  have hread : Text.ofHex? (Text.hex 4 c.toNat) = some c.toNat := by
    rw [Text.ofHex?_hex, Nat.mod_eq_of_lt (by omega)]
  have hlength := Text.hex_length 4 c.toNat
  generalize Text.hex 4 c.toNat = digits at hread hlength
  match digits, hlength with
  | [a, b, c', d], _ =>
    simp only [List.cons_append, List.nil_append, readString, hread, pushUnit_ofChars h]

/-- A character is escaped by a letter or as a control character, or it stands for itself. -/
theorem escape_cases (c : Char) :
    (∃ letter, letter ≠ 'u' ∧ unescape? letter = some c ∧ Json.escape c = ['\\', letter]) ∨
    (c.toNat < 32 ∧ Json.escape c = '\\' :: 'u' :: Text.hex 4 c.toNat) ∨
    (c ≠ '"' ∧ c ≠ '\\' ∧ ¬c.toNat < 32 ∧ Json.escape c = [c]) := by
  have hcode : ∀ code, c.toNat = code → Char.ofNat code = c := fun code h => by
    rw [← h, Char.ofNat_toNat]
  unfold Json.escape
  split_ifs with hquote hbackslash hline hreturn htab hback hfeed hcontrol
  · exact .inl ⟨'"', by decide, congrArg some hquote.symm, rfl⟩
  · exact .inl ⟨'\\', by decide, congrArg some hbackslash.symm, rfl⟩
  · exact .inl ⟨'n', by decide, congrArg some hline.symm, rfl⟩
  · exact .inl ⟨'r', by decide, congrArg some hreturn.symm, rfl⟩
  · exact .inl ⟨'t', by decide, congrArg some htab.symm, rfl⟩
  · exact .inl ⟨'b', by decide, congrArg some (hcode 8 hback), rfl⟩
  · exact .inl ⟨'f', by decide, congrArg some (hcode 12 hfeed), rfl⟩
  · exact .inr (.inl ⟨hcontrol, rfl⟩)
  · exact .inr (.inr ⟨hquote, hbackslash, hcontrol, rfl⟩)

/-- A character is read back from its form inside a string. -/
theorem readString_escape (reversed : List Char) (c : Char) (rest : List Char) :
    readString (.ofChars reversed) (Json.escape c ++ rest) =
      readString (.ofChars (c :: reversed)) rest := by
  rcases escape_cases c with ⟨letter, hletter, hplain, heq⟩ | ⟨hcontrol, heq⟩ |
    ⟨hquote, hbackslash, hcontrol, heq⟩
  · rw [heq]
    exact readString_letter hletter hplain reversed rest
  · rw [heq]
    exact readString_unit hcontrol reversed rest
  · rw [heq, List.singleton_append, readString, if_neg (by simp [hbackslash, hcontrol]),
      push_ofChars]
    · exact hquote
    · exact fun _ _ _ _ _ h => absurd h hbackslash
    · exact fun _ _ h => absurd h hbackslash

theorem readString_flatMap (reversed cs rest : List Char) :
    readString (.ofChars reversed) (cs.flatMap Json.escape ++ '"' :: rest) =
      some (some (String.ofList (reversed.reverse ++ cs)), rest) := by
  induction cs generalizing reversed with
  | nil => simp [readString, Partial.ofChars, Partial.finish]
  | cons c cs ih =>
    rw [List.flatMap_cons, List.append_assoc, readString_escape, ih]
    simp

/-- A quoted string is read to its end. -/
theorem readString_quote (text : String) (rest : List Char) :
    ∃ cs, Json.quote text ++ rest = '"' :: cs ∧
      readString .empty cs = some (some text, rest) := by
  refine ⟨text.toList.flatMap Json.escape ++ '"' :: rest, by simp [Json.quote], ?_⟩
  exact (readString_flatMap [] text.toList rest).trans (by simp)

/-! ## 2. Values -/

variable {cs rest : List Char} {level steps : Nat}

theorem skipSpace_cons {c : Char} (h : isSpace c = false) : skipSpace (c :: cs) = c :: cs := by
  simp [skipSpace, h]

theorem isSpace_of_mem_newLine {c : Char} (h : c ∈ Json.newLine level) : isSpace c = true := by
  rcases List.mem_cons.mp h with rfl | h
  · rfl
  · rw [(List.mem_replicate.mp h).2]
    rfl

theorem isComplete_ofJson (value : Json) : (ofJson value).isComplete = true := by
  cases value <;> rfl

section

variable {spaces : List Char} (h : ∀ c ∈ spaces, isSpace c = true) (steps : Nat) (cs : List Char)
include h

theorem skipSpace_append : skipSpace (spaces ++ cs) = skipSpace cs :=
  List.dropWhile_append_of_pos h

/-- Space in front of a value is passed over. -/
theorem readValue_append : readValue steps (spaces ++ cs) = readValue steps cs := by
  cases steps with
  | zero => rfl
  | succ steps => rw [readValue, readValue, skipSpace_append h]

theorem readItems_append : readItems steps (spaces ++ cs) = readItems steps cs := by
  cases steps with
  | zero => rfl
  | succ steps => rw [readItems, readItems, readValue_append h]

theorem readMembers_append : readMembers steps (spaces ++ cs) = readMembers steps cs := by
  cases steps with
  | zero => rfl
  | succ steps => rw [readMembers, readMembers, skipSpace_append h]

end

/-- The first character of a numeral is a minus sign or a digit. -/
theorem toChars_eq_cons {number : Number} (h : number.Valid) :
    ∃ c cs, number.toChars = c :: cs ∧ (c = '-' ∨ Text.isDigit c = true) := by
  have hform := Number.wellFormed_numeral h
  rw [Number.toChars_numeral, Numeral.toChars]
  split
  · exact ⟨'-', _, rfl, .inl rfl⟩
  · obtain ⟨c, digits, hwhole⟩ := List.exists_cons_of_ne_nil hform.whole_ne
    exact ⟨c, _, by rw [Numeral.unsignedChars, hwhole, List.cons_append],
      .inr (hform.whole_digits c (hwhole ▸ List.mem_cons_self))⟩

/-- A character that starts a numeral is none of those that start something else. -/
theorem ne_of_startsNumeral {c letter : Char} (h : c = '-' ∨ Text.isDigit c = true)
    (hletter : ¬(letter.toNat = 45 ∨ 48 ≤ letter.toNat ∧ letter.toNat ≤ 57)) : c ≠ letter := by
  rintro rfl
  rcases h with rfl | h
  · exact hletter (.inl rfl)
  · exact hletter (.inr (Text.isDigit_iff.mp h))

theorem isSpace_of_startsNumeral {c : Char} (h : c = '-' ∨ Text.isDigit c = true) :
    isSpace c = false := by
  have hne := fun letter => @ne_of_startsNumeral c letter h
  simp [isSpace, hne ' ' (by decide), hne '\n' (by decide), hne '\t' (by decide),
    hne '\r' (by decide)]

/-- A numeral is told by its first character. -/
theorem readValue_numeral {c : Char} (h : c = '-' ∨ Text.isDigit c = true) (steps : Nat) :
    readValue (steps + 1) (c :: cs) = readNumber (c :: cs) := by
  rw [readValue, skipSpace_cons (isSpace_of_startsNumeral h)]
  split <;> rename_i heq
  · cases heq
  · exact absurd (List.cons.inj heq).1 (ne_of_startsNumeral h (by decide))
  · exact absurd (List.cons.inj heq).1 (ne_of_startsNumeral h (by decide))
  · exact absurd (List.cons.inj heq).1 (ne_of_startsNumeral h (by decide))
  · exact absurd (List.cons.inj heq).1 (ne_of_startsNumeral h (by decide))
  · exact absurd (List.cons.inj heq).1 (ne_of_startsNumeral h (by decide))
  · exact absurd (List.cons.inj heq).1 (ne_of_startsNumeral h (by decide))
  · obtain ⟨rfl, rfl⟩ := List.cons.inj heq
    rw [if_pos h]

/-- What is printed starts with a character that is not space and closes nothing. -/
theorem pretty_eq_cons {value : Json} (h : value.Legible) (level : Nat) :
    ∃ c cs, value.pretty level = c :: cs ∧ isSpace c = false ∧ c ≠ ']' ∧ c ≠ '\x7d' := by
  cases value with
  | null => exact ⟨'n', _, rfl, by decide⟩
  | bool value => cases value <;> exact ⟨_, _, rfl, by decide⟩
  | number value =>
    obtain ⟨c, cs, hcons, hc⟩ := toChars_eq_cons h
    exact ⟨c, cs, hcons, isSpace_of_startsNumeral hc, ne_of_startsNumeral hc (by decide),
      ne_of_startsNumeral hc (by decide)⟩
  | string value => exact ⟨'"', _, rfl, by decide⟩
  | array items =>
    cases items with
    | nil => exact ⟨'[', _, rfl, by decide⟩
    | cons item items => exact ⟨'[', _, rfl, by decide⟩
  | object members =>
    cases members with
    | nil => exact ⟨'\x7b', _, rfl, by decide⟩
    | cons member members => exact ⟨'\x7b', _, rfl, by decide⟩

/-- The indented form of a value is read to its end, at every level and whatever stands behind
it. -/
def ReadsBack (value : Json) : Prop :=
  ∀ level steps rest, (value.pretty level).length < steps → Text.Stops Numeral.continues rest →
    readValue steps (value.pretty level ++ rest) = (ofJson value.reread, rest)

/-- The items of an array up to the closing bracket. -/
def itemChars (level : Nat) : List Json → List Char
  | [] => []
  | item :: items => item.pretty level ++ Json.prettyItems level items

theorem prettyItems_cons (level : Nat) (item : Json) (items : List Json) :
    Json.prettyItems level (item :: items) =
      ',' :: (Json.newLine level ++ itemChars level (item :: items)) := by
  simp [Json.prettyItems, itemChars]

theorem readItems_itemChars {items : List Json} (hne : items ≠ [])
    (ih : ∀ item ∈ items, ReadsBack item) (level outer : Nat) {steps : Nat}
    (hsteps : (itemChars level items).length + 1 < steps) (rest : List Char) :
    readItems steps (itemChars level items ++ (Json.newLine outer ++ ']' :: rest)) =
      (ofItems (items.map Json.reread), true, rest) := by
  -- each item takes a step and has at least one character, so the steps last
  induction items generalizing steps with
  | nil => exact absurd rfl hne
  | cons item items ihItems =>
    obtain ⟨hitem, hitems⟩ := List.forall_mem_cons.mp ih
    obtain ⟨steps, rfl⟩ := Nat.exists_eq_succ_of_ne_zero (show steps ≠ 0 by omega)
    simp only [itemChars, List.length_append] at hsteps
    have hclose : skipSpace (Json.newLine outer ++ ']' :: rest) = ']' :: rest := by
      rw [skipSpace_append fun _ => isSpace_of_mem_newLine, skipSpace_cons (by decide)]
    cases items with
    | nil =>
      have hread := hitem level steps (Json.newLine outer ++ ']' :: rest) (by omega)
        (by simp [Json.newLine]; decide)
      rw [itemChars, Json.prettyItems, List.append_nil, readItems, hread]
      simp only [isComplete_ofJson, if_true, hclose, List.map_cons, List.map_nil, ofItems]
    | cons next items =>
      have hnext : (itemChars level (next :: items)).length + 1 < steps := by
        rw [prettyItems_cons] at hsteps
        simp only [List.length_cons, List.length_append] at hsteps
        omega
      have hread := hitem level steps
        (Json.prettyItems level (next :: items) ++ (Json.newLine outer ++ ']' :: rest)) (by omega)
        (by simp [prettyItems_cons]; decide)
      rw [itemChars, List.append_assoc, readItems, hread]
      simp only [isComplete_ofJson, if_true]
      rw [prettyItems_cons, List.cons_append, skipSpace_cons (by decide)]
      simp only [List.append_assoc, readItems_append fun _ => isSpace_of_mem_newLine,
        ihItems (List.cons_ne_nil _ _) hitems hnext, List.map_cons, ofItems]

/-- The members of an object up to the closing brace. -/
def memberChars (level : Nat) : List (String × Json) → List Char
  | [] => []
  | (name, value) :: members =>
    Json.quote name ++ ':' :: ' ' :: value.pretty level ++ Json.prettyMembers level members

theorem prettyMembers_cons (level : Nat) (member : String × Json) (members : List (String × Json)) :
    Json.prettyMembers level (member :: members) =
      ',' :: (Json.newLine level ++ memberChars level (member :: members)) := by
  simp [Json.prettyMembers, memberChars]

theorem readMembers_memberChars {members : List (String × Json)} (hne : members ≠ [])
    (ih : ∀ member ∈ members, ReadsBack member.2) (level outer : Nat) {steps : Nat}
    (hsteps : (memberChars level members).length + 1 < steps) (rest : List Char) :
    readMembers steps (memberChars level members ++ (Json.newLine outer ++ '\x7d' :: rest)) =
      (ofMembers (members.map fun member => (member.1, member.2.reread)), true, rest) := by
  induction members generalizing steps with
  | nil => exact absurd rfl hne
  | cons member members ihMembers =>
    obtain ⟨hmember, hmembers⟩ := List.forall_mem_cons.mp ih
    obtain ⟨name, value⟩ := member
    obtain ⟨steps, rfl⟩ := Nat.exists_eq_succ_of_ne_zero (show steps ≠ 0 by omega)
    simp only [memberChars, List.length_append, List.length_cons] at hsteps
    have hclose : skipSpace (Json.newLine outer ++ '\x7d' :: rest) = '\x7d' :: rest := by
      rw [skipSpace_append fun _ => isSpace_of_mem_newLine, skipSpace_cons (by decide)]
    have hblank : ∀ c ∈ [' '], isSpace c = true := List.forall_mem_singleton.mpr rfl
    have hspace : ∀ cs, readValue steps (' ' :: cs) = readValue steps cs := fun cs =>
      readValue_append hblank steps cs
    cases members with
    | nil =>
      obtain ⟨cs, hquote, hname⟩ := readString_quote name
        (':' :: ' ' :: value.pretty level ++ (Json.newLine outer ++ '\x7d' :: rest))
      have hread := hmember level steps (Json.newLine outer ++ '\x7d' :: rest)
        (show (value.pretty level).length < steps by omega) (by simp [Json.newLine]; decide)
      rw [memberChars, Json.prettyMembers, List.append_nil, List.append_assoc, hquote, readMembers,
        skipSpace_cons (by decide)]
      simp only [hname, List.cons_append]
      rw [skipSpace_cons (by decide)]
      simp only [hspace, hread, isComplete_ofJson, if_true, hclose, List.map_cons, List.map_nil,
        ofMembers]
    | cons next members =>
      have hnext : (memberChars level (next :: members)).length + 1 < steps := by
        rw [prettyMembers_cons] at hsteps
        simp only [List.length_cons, List.length_append] at hsteps
        omega
      obtain ⟨cs, hquote, hname⟩ := readString_quote name
        (':' :: ' ' :: value.pretty level ++ (Json.prettyMembers level (next :: members) ++
          (Json.newLine outer ++ '\x7d' :: rest)))
      have hread := hmember level steps
        (Json.prettyMembers level (next :: members) ++ (Json.newLine outer ++ '\x7d' :: rest))
        (show (value.pretty level).length < steps by omega) (by simp [prettyMembers_cons]; decide)
      rw [memberChars, List.append_assoc, List.append_assoc, hquote, readMembers,
        skipSpace_cons (by decide)]
      simp only [hname, List.cons_append]
      rw [skipSpace_cons (by decide)]
      simp only [hspace, hread, isComplete_ofJson, if_true]
      rw [prettyMembers_cons, List.cons_append, skipSpace_cons (by decide)]
      simp only [List.append_assoc, readMembers_append fun _ => isSpace_of_mem_newLine,
        ihMembers (List.cons_ne_nil _ _) hmembers hnext, List.map_cons, ofMembers]

theorem readsBack_array {items : List Json} (h : ∀ item ∈ items, item.Legible)
    (ih : ∀ item ∈ items, ReadsBack item) : ReadsBack (.array items) := by
  intro level steps rest hsteps _
  obtain ⟨steps, rfl⟩ := Nat.exists_eq_succ_of_ne_zero (show steps ≠ 0 by omega)
  rw [Json.reread_array, ofJson]
  cases items with
  | nil =>
    rw [Json.pretty, List.cons_append, readValue, skipSpace_cons (by decide)]
    simp only [List.cons_append, skipSpace_cons (show isSpace ']' = false by decide)]
    rfl
  | cons item items =>
    have htext : (Json.array (item :: items)).pretty level ++ rest = '[' ::
        (Json.newLine (level + 1) ++ (itemChars (level + 1) (item :: items) ++
          (Json.newLine level ++ ']' :: rest))) := by
      simp [Json.pretty, itemChars]
    have hlength : (itemChars (level + 1) (item :: items)).length + 1 < steps := by
      simp only [Json.pretty, Json.newLine, List.length_cons, List.length_append] at hsteps
      simp only [itemChars, List.length_append]
      omega
    obtain ⟨c, cs, hcons, hspace, hbracket, -⟩ :=
      pretty_eq_cons (h item List.mem_cons_self) (level + 1)
    have hread := readItems_itemChars (List.cons_ne_nil _ _) ih (level + 1) level hlength rest
    rw [itemChars, hcons] at hread htext
    rw [htext, readValue, skipSpace_cons (by decide)]
    simp only [skipSpace_append fun _ => isSpace_of_mem_newLine, List.cons_append,
      skipSpace_cons hspace] at hread ⊢
    -- the array is empty if a closing bracket follows at once, and no item starts with one
    split
    · rename_i heq
      exact absurd (List.cons.inj heq).1 hbracket
    · rw [hread]

theorem readsBack_object {members : List (String × Json)}
    (ih : ∀ member ∈ members, ReadsBack member.2) : ReadsBack (.object members) := by
  intro level steps rest hsteps _
  obtain ⟨steps, rfl⟩ := Nat.exists_eq_succ_of_ne_zero (show steps ≠ 0 by omega)
  rw [Json.reread_object, ofJson]
  cases members with
  | nil =>
    rw [Json.pretty, List.cons_append, readValue, skipSpace_cons (by decide)]
    simp only [List.cons_append, skipSpace_cons (show isSpace '\x7d' = false by decide)]
    rfl
  | cons member members =>
    obtain ⟨name, value⟩ := member
    have htext : (Json.object ((name, value) :: members)).pretty level ++ rest = '\x7b' ::
        (Json.newLine (level + 1) ++ (memberChars (level + 1) ((name, value) :: members) ++
          (Json.newLine level ++ '\x7d' :: rest))) := by
      simp [Json.pretty, memberChars]
    have hlength : (memberChars (level + 1) ((name, value) :: members)).length + 1 < steps := by
      simp only [Json.pretty, Json.newLine, List.length_cons, List.length_append] at hsteps
      simp only [memberChars, List.length_append, List.length_cons]
      omega
    obtain ⟨cs, hcons⟩ : ∃ cs, memberChars (level + 1) ((name, value) :: members) = '"' :: cs :=
      ⟨_, by rw [memberChars, Json.quote]; rfl⟩
    have hread := readMembers_memberChars (List.cons_ne_nil _ _) ih (level + 1) level hlength rest
    rw [hcons] at hread htext
    rw [htext, readValue, skipSpace_cons (by decide)]
    simp only [skipSpace_append fun _ => isSpace_of_mem_newLine, List.cons_append,
      skipSpace_cons (show isSpace '"' = false by decide)] at hread ⊢
    split
    · rename_i heq
      exact absurd (List.cons.inj heq).1 (by decide)
    · rw [hread]

/-- The indented form of a value is read to its end. -/
theorem readValue_pretty {value : Json} (h : value.Legible) : ReadsBack value := by
  induction value using Json.induction with
  | null =>
    intro level steps rest hsteps _
    obtain ⟨steps, rfl⟩ := Nat.exists_eq_succ_of_ne_zero (show steps ≠ 0 by omega)
    rw [Json.pretty, show "null".toList = ['n', 'u', 'l', 'l'] by decide, List.cons_append,
      readValue, skipSpace_cons (by decide)]
    simp [readName, Json.reread, ofJson]
  | bool value =>
    intro level steps rest hsteps _
    obtain ⟨steps, rfl⟩ := Nat.exists_eq_succ_of_ne_zero (show steps ≠ 0 by omega)
    cases value with
    | true =>
      rw [Json.pretty, show "true".toList = ['t', 'r', 'u', 'e'] by decide, List.cons_append,
        readValue, skipSpace_cons (by decide)]
      simp [readName, Json.reread, ofJson]
    | false =>
      rw [Json.pretty, show "false".toList = ['f', 'a', 'l', 's', 'e'] by decide,
        List.cons_append, readValue, skipSpace_cons (by decide)]
      simp [readName, Json.reread, ofJson]
  | number value =>
    intro level steps rest hsteps hrest
    obtain ⟨steps, rfl⟩ := Nat.exists_eq_succ_of_ne_zero (show steps ≠ 0 by omega)
    have hvalid : value.Valid := h
    have hread := readNumber_toChars (Number.wellFormed_numeral hvalid) hrest
    rw [← Number.toChars_numeral, Number.ofNumeral_numeral hvalid] at hread
    obtain ⟨c, cs, hcons, hc⟩ := toChars_eq_cons hvalid
    rw [hcons, List.cons_append] at hread
    rw [Json.pretty, hcons, List.cons_append, readValue_numeral hc, hread, Json.reread, ofJson]
  | string value =>
    intro level steps rest hsteps _
    obtain ⟨steps, rfl⟩ := Nat.exists_eq_succ_of_ne_zero (show steps ≠ 0 by omega)
    obtain ⟨cs, hquote, hread⟩ := readString_quote value rest
    rw [Json.pretty, hquote, readValue, skipSpace_cons (by decide)]
    simp [hread, Json.reread, ofJson]
  | array items ih =>
    rw [Json.Legible, Json.numbersAll_array] at h
    exact readsBack_array h fun item hitem => ih item hitem (h item hitem)
  | object members ih =>
    rw [Json.Legible, Json.numbersAll_object] at h
    exact readsBack_object fun member hmember => ih member hmember (h member hmember)

/-! ## 3. Whole texts -/

/-- The indented form of a value, as a whole text, is the reading of the value. -/
theorem ofText_toPrettyText {value : Json} (h : value.Legible) :
    ofText value.toPrettyText = (ofJson value.reread, false) := by
  have hread := readValue_pretty h 0 (2 * (value.pretty 0).length + 2) [] (by omega) (by simp)
  rw [List.append_nil] at hread
  simp [ofText, Json.toPrettyText, String.toList_ofList, hread, skipSpace]

end Reading

end LeaseLog
