import LeaseLog.Proofs.Json.Journal

/-!
# Texts that break off

What is read from the front of a text stays the same when more text is put behind it. So a value
that is read in full from the beginning of a printed text is all of that text, and a journal that
breaks off is no journal.

Results:
1. `staysAt`: what is read in full is also read with more text behind it.
2. `eq_empty_of_isComplete`: what is read in full from the beginning of a printed text.
3. `Journal.ofText_beginning`: a journal that breaks off.
-/

namespace LeaseLog

namespace Reading

variable {cs rest more : List Char} {steps steps' : Nat}

/-! ## 1. Parts of a text -/

/-- What a reader takes from the front of a text stays the same with more text behind, unless the
reader took all there was. -/
def Steady {α : Type} (read : List Char → Option (α × List Char)) : Prop :=
  ∀ cs value rest more, read cs = some (value, rest) → rest ≠ [] →
    read (cs ++ more) = some (value, rest ++ more)

theorem dropWhile_steady {p : Char → Bool} (h : cs.dropWhile p = rest) (hrest : rest ≠ []) :
    (cs ++ more).dropWhile p = rest ++ more := by
  rw [List.dropWhile_append, h, if_neg (by simpa using hrest)]

theorem takeWhile_steady {p : Char → Bool} (h : cs.dropWhile p ≠ []) :
    (cs ++ more).takeWhile p = cs.takeWhile p := by
  have hcut := @List.takeWhile_append_dropWhile _ p (cs ++ more)
  rw [dropWhile_steady rfl h] at hcut
  have hsame : (cs ++ more).takeWhile p ++ (cs.dropWhile p ++ more) =
      cs.takeWhile p ++ (cs.dropWhile p ++ more) := by
    rw [hcut, ← List.append_assoc, List.takeWhile_append_dropWhile]
  exact List.append_cancel_right hsame

theorem skipSpace_steady {c : Char} (h : skipSpace cs = c :: rest) :
    skipSpace (cs ++ more) = c :: (rest ++ more) :=
  dropWhile_steady h (List.cons_ne_nil _ _)

theorem steady_someDigits : Steady readSomeDigits := by
  intro cs digits rest more h hrest
  unfold readSomeDigits at h ⊢
  split at h
  · cases h
  · rename_i hdigits
    have hparts : cs.takeWhile Text.isDigit = digits ∧ cs.dropWhile Text.isDigit = rest := by
      simpa [readDigits] using h
    have hmore : readDigits (cs ++ more) = (digits, rest ++ more) := by
      rw [readDigits, takeWhile_steady (hparts.2 ▸ hrest), dropWhile_steady hparts.2 hrest,
        hparts.1]
    rw [hmore]
    split
    · rename_i heq
      exact absurd (by rw [readDigits, hparts.1, hparts.2, (Prod.mk.inj heq).1]) (hdigits rest)
    · rfl

theorem steady_whole : Steady readWhole := by
  intro cs digits rest more h hrest
  unfold readWhole at h
  split at h
  · cases h
  · rename_i hzero
    rw [readWhole, steady_someDigits cs digits rest more h hrest]
    split
    · rename_i heq
      obtain ⟨rfl, -⟩ := Prod.mk.inj (Option.some.inj heq)
      exact absurd h (hzero _ _ _)
    · rfl

theorem steady_fraction : Steady readFraction := by
  intro cs digits rest more h hrest
  unfold readFraction at h
  split at h
  · exact steady_someDigits _ _ _ _ h hrest
  · rename_i hpoint
    obtain ⟨rfl, rfl⟩ := Prod.mk.inj (Option.some.inj h)
    obtain ⟨c, cs, rfl⟩ := List.exists_cons_of_ne_nil hrest
    rw [List.cons_append, readFraction]
    intro other heq
    exact hpoint cs (by rw [(List.cons.inj heq).1])

theorem readSign_steady (h : cs ≠ []) :
    readSign (cs ++ more) = ((readSign cs).1, (readSign cs).2 ++ more) := by
  obtain ⟨c, cs, rfl⟩ := List.exists_cons_of_ne_nil h
  rw [List.cons_append]
  unfold readSign
  split <;> simp_all

theorem steady_exponent : Steady readExponent := by
  intro cs exponent rest more h hrest
  cases cs with
  | nil => simp [readExponent] at h; exact absurd h.2 hrest
  | cons c cs =>
    rw [readExponent] at h
    rw [List.cons_append, readExponent]
    split at h
    · rename_i hc
      rw [if_pos hc]
      dsimp only at h ⊢
      split at h
      · rename_i digits left hdigits
        cases h
        have hne : cs ≠ [] := by
          rintro rfl
          cases hdigits
        rw [readSign_steady hne, steady_someDigits _ _ _ _ hdigits hrest]
      · cases h
    · rename_i hc
      rw [if_neg hc]
      cases h
      rfl

theorem readUnsigned_steady {negative : Bool} {value : Reading}
    (h : readUnsigned negative cs = (value, rest)) (hcomplete : value.isComplete = true)
    (hrest : rest ≠ []) : readUnsigned negative (cs ++ more) = (value, rest ++ more) := by
  unfold readUnsigned at h
  split at h
  · cases h; cases hcomplete
  · rename_i whole left hwhole
    split at h
    · cases h; cases hcomplete
    · rename_i fraction left' hfraction
      split at h
      · cases h; cases hcomplete
      · rename_i exponent left'' hexponent
        cases h
        -- a part that took all there was would leave nothing for the next one
        have hleft' : left' ≠ [] := by
          rintro rfl
          cases hexponent
          exact hrest rfl
        have hleft : left ≠ [] := by
          rintro rfl
          cases hfraction
          exact hleft' rfl
        rw [readUnsigned, steady_whole _ _ _ _ hwhole hleft]
        simp only [steady_fraction _ _ _ _ hfraction hleft',
          steady_exponent _ _ _ _ hexponent hrest]

theorem readNumber_steady {value : Reading} (h : readNumber cs = (value, rest))
    (hcomplete : value.isComplete = true) (hrest : rest ≠ []) :
    readNumber (cs ++ more) = (value, rest ++ more) := by
  unfold readNumber at h
  split at h
  · exact readUnsigned_steady h hcomplete hrest
  · rename_i hminus
    cases cs with
    | nil => cases h; cases hcomplete
    | cons c cs =>
      rw [List.cons_append, readNumber, ← List.cons_append]
      · exact readUnsigned_steady h hcomplete hrest
      · intro other heq
        exact hminus cs (by rw [(List.cons.inj heq).1])

/-- A numeral is read as a number. -/
theorem exists_number {value : Reading} (h : readNumber cs = (value, rest))
    (hcomplete : value.isComplete = true) : ∃ number, value = .number number := by
  have hunsigned : ∀ {negative cs}, readUnsigned negative cs = (value, rest) →
      ∃ number, value = .number number := by
    intro negative cs h
    unfold readUnsigned at h
    split at h
    · cases h; cases hcomplete
    · split at h
      · cases h; cases hcomplete
      · split at h
        · cases h; cases hcomplete
        · cases h
          exact ⟨_, rfl⟩
  unfold readNumber at h
  split at h <;> exact hunsigned h

theorem readString_steady {p : Partial} {value : Option String}
    (h : readString p cs = some (value, rest)) :
    readString p (cs ++ more) = some (value, rest ++ more) := by
  fun_induction readString p cs with
  | case1 => cases h
  | case2 => cases h; rfl
  | case3 p a b c d left unit hunit ih =>
    simp only [List.cons_append]
    rw [readString, hunit]
    exact ih h
  | case4 => cases h
  | case5 p c left hlong plain hplain ih =>
    have hu : c ≠ 'u' := by
      rintro rfl
      cases hplain
    simp only [List.cons_append]
    rw [readString, hplain]
    · exact ih h
    · exact fun _ _ _ _ _ hc _ => hu hc
  | case6 => cases h
  | case7 => cases h
  | case8 p c left hquote _ _ hplain ih =>
    have hback : c ≠ '\\' := fun hc => hplain (.inr hc)
    rw [List.cons_append, readString, if_neg hplain]
    · exact ih h
    · exact hquote
    · exact fun _ _ _ _ _ hc _ => hback hc
    · exact fun _ _ hc _ => hback hc

theorem readName_steady {letters : List Char} {value found : Reading}
    (h : readName letters value cs = (found, rest)) (hcomplete : found.isComplete = true) :
    readName letters value (cs ++ more) = (found, rest ++ more) := by
  unfold readName at h
  split at h
  · rename_i hletters
    cases h
    have hlength : letters.length ≤ cs.length := by
      rw [← hletters, List.length_take]
      exact Nat.min_le_right _ _
    rw [readName, List.take_append_of_le_length hlength, if_pos hletters,
      List.drop_append_of_le_length hlength]
  · cases h; cases hcomplete

/-! ## 2. Values -/

theorem readItems_nil : (readItems steps []).2.1 = false := by
  cases steps with
  | zero => rfl
  | succ steps => cases steps <;> rfl

theorem readMembers_nil : (readMembers steps []).2.1 = false := by
  cases steps <;> rfl

/-- What is read in full with one number of steps is also read with another number when more text
stands behind it. Only a numeral at the end of a text may go on. -/
structure StaysAt (more : List Char) (steps steps' : Nat) : Prop where
  value : ∀ {cs rest value}, readValue steps cs = (value, rest) → value.isComplete = true →
    (∀ number, value = .number number → rest ≠ []) →
    readValue steps' (cs ++ more) = (value, rest ++ more)
  items : ∀ {cs rest items}, readItems steps cs = (items, true, rest) →
    readItems steps' (cs ++ more) = (items, true, rest ++ more)
  members : ∀ {cs rest members}, readMembers steps cs = (members, true, rest) →
    readMembers steps' (cs ++ more) = (members, true, rest ++ more)

/-- Reading starts behind leading space. -/
theorem readValue_skipSpace : readValue steps (skipSpace cs) = readValue steps cs := by
  have hspaces : ∀ c ∈ cs.takeWhile isSpace, isSpace c = true :=
    List.all_eq_true.mp List.all_takeWhile
  conv_rhs => rw [← @List.takeWhile_append_dropWhile _ isSpace cs]
  rw [readValue_append hspaces]
  rfl

/-- What stands between an opening and a closing character, as it is read from behind the opening
one. -/
def enclosed {α : Type} (close : Char) (readParts : List Char → List α × Bool × List Char)
    (build : List α → Bool → Reading) (cs : List Char) : Reading × List Char :=
  if (skipSpace cs).head? = some close then (build [] true, (skipSpace cs).tail)
  else
    let (parts, closed, rest) := readParts (skipSpace cs)
    (build parts closed, rest)

theorem enclosed_steady {α : Type} {close : Char}
    {readParts readParts' : List Char → List α × Bool × List Char}
    {build : List α → Bool → Reading} {value : Reading}
    (hbuild : ∀ parts closed, (build parts closed).isComplete = closed)
    (hnil : (readParts []).2.1 = false)
    (hparts : ∀ {cs rest parts}, readParts cs = (parts, true, rest) →
      readParts' (cs ++ more) = (parts, true, rest ++ more))
    (h : enclosed close readParts build cs = (value, rest)) (hcomplete : value.isComplete = true) :
    enclosed close readParts' build (cs ++ more) = (value, rest ++ more) := by
  unfold enclosed at h ⊢
  cases hskip : skipSpace cs with
  | nil =>
    -- nothing is closed at the end of a text
    rw [hskip, if_neg (by simp)] at h
    cases h
    rw [hbuild, hnil] at hcomplete
    cases hcomplete
  | cons c behind =>
    rw [hskip] at h
    rw [skipSpace_steady hskip]
    by_cases hc : c = close
    · have hclose : ∀ others, (c :: others).head? = some close := fun _ => congrArg some hc
      rw [if_pos (hclose _)] at h ⊢
      cases h
      rfl
    · have hopen : ∀ others, ¬ (c :: others).head? = some close :=
        fun _ heq => hc (Option.some.inj heq)
      rw [if_neg (hopen _)] at h ⊢
      rcases hread : readParts (c :: behind) with ⟨parts, closed, last⟩
      rw [hread] at h
      cases h
      obtain rfl : closed = true := hbuild parts closed ▸ hcomplete
      rw [← List.cons_append, hparts hread]

theorem readValue_bracket {left : List Char} (h : skipSpace cs = '[' :: left) :
    readValue (steps + 1) cs = enclosed ']' (readItems steps) .array left := by
  rw [readValue, h, enclosed]
  rcases hskip : skipSpace left with _ | ⟨c, behind⟩
  · simp [hskip]
  · by_cases hc : c = ']' <;> simp [hskip, hc]

theorem readValue_brace {left : List Char} (h : skipSpace cs = '\x7b' :: left) :
    readValue (steps + 1) cs = enclosed '\x7d' (readMembers steps) .object left := by
  rw [readValue, h, enclosed]
  rcases hskip : skipSpace left with _ | ⟨c, behind⟩
  · simp [hskip]
  · by_cases hc : c = '\x7d' <;> simp [hskip, hc]

section

variable (ih : StaysAt more steps steps') {value : Reading} {left : List Char}
include ih

theorem value_steady (h : readValue (steps + 1) cs = (value, rest))
    (hcomplete : value.isComplete = true) (hnumber : ∀ number, value = .number number → rest ≠ []) :
    readValue (steps' + 1) (cs ++ more) = (value, rest ++ more) := by
  cases hskip : skipSpace cs with
  | nil =>
    rw [readValue, hskip] at h
    cases h; cases hcomplete
  | cons c left =>
    have hmore : skipSpace (cs ++ more) = c :: (left ++ more) := skipSpace_steady hskip
    -- a numeral is told by its first character, everything else is matched
    by_cases hc : c = '-' ∨ Text.isDigit c = true
    · rw [← readValue_skipSpace, hskip, readValue_numeral hc] at h
      rw [← readValue_skipSpace, hmore, readValue_numeral hc]
      obtain ⟨number, rfl⟩ := exists_number h hcomplete
      exact readNumber_steady h hcomplete (hnumber number rfl)
    · have hread := h
      rw [readValue, hskip] at h
      rw [readValue, hmore]
      split at h
      · rename_i heq
        cases heq
      · rename_i heq
        cases heq
        exact readName_steady h hcomplete
      · rename_i heq
        cases heq
        exact readName_steady h hcomplete
      · rename_i heq
        cases heq
        exact readName_steady h hcomplete
      · rename_i heq
        cases heq
        split at h
        · rename_i hstring
          cases h
          simp only [readString_steady hstring]
        · cases h; cases hcomplete
      · rename_i heq
        cases heq
        have hwhole : readValue (steps' + 1) (cs ++ more) = (value, rest ++ more) := by
          rw [readValue_bracket hskip] at hread
          rw [readValue_bracket hmore]
          exact enclosed_steady (fun _ _ => rfl) readItems_nil ih.items hread hcomplete
        rwa [readValue, hmore] at hwhole
      · rename_i heq
        cases heq
        have hwhole : readValue (steps' + 1) (cs ++ more) = (value, rest ++ more) := by
          rw [readValue_brace hskip] at hread
          rw [readValue_brace hmore]
          exact enclosed_steady (fun _ _ => rfl) readMembers_nil ih.members hread hcomplete
        rwa [readValue, hmore] at hwhole
      · rename_i heq
        cases heq
        rw [if_neg hc] at h
        cases h; cases hcomplete

theorem items_steady {items : List Reading}
    (h : readItems (steps + 1) cs = (items, true, rest)) :
    readItems (steps' + 1) (cs ++ more) = (items, true, rest ++ more) := by
  rcases hitem : readValue steps cs with ⟨item, left⟩
  rw [readItems, hitem] at h
  dsimp only at h
  split at h
  · rename_i hcomplete
    cases hskip : skipSpace left with
    | nil =>
      rw [hskip] at h
      cases h
    | cons c behind =>
      have hleft : left ≠ [] := by
        rintro rfl
        cases hskip
      rw [readItems, ih.value hitem hcomplete fun _ _ => hleft]
      dsimp only
      rw [if_pos hcomplete, skipSpace_steady hskip]
      rw [hskip] at h
      split at h
      · rename_i heq
        cases heq
        rcases hothers : readItems steps behind with ⟨others, closed, last⟩
        rw [hothers] at h
        cases h
        simp only [ih.items hothers]
      · rename_i heq
        cases heq
        cases h
        rfl
      · cases h
  · cases h

theorem members_steady {members : List (Option String × Reading)}
    (h : readMembers (steps + 1) cs = (members, true, rest)) :
    readMembers (steps' + 1) (cs ++ more) = (members, true, rest ++ more) := by
  rw [readMembers] at h
  split at h
  · rename_i hquote
    split at h
    · cases h
    · rename_i name left hname
      split at h
      · rename_i left' hcolon
        rcases hvalue : readValue steps left' with ⟨value, behind⟩
        rw [hvalue] at h
        dsimp only at h
        split at h
        · rename_i hcomplete
          cases hskip : skipSpace behind with
          | nil =>
            rw [hskip] at h
            cases h
          | cons c last =>
            have hbehind : behind ≠ [] := by
              rintro rfl
              cases hskip
            rw [readMembers, skipSpace_steady hquote]
            simp only [readString_steady hname, skipSpace_steady hcolon,
              ih.value hvalue hcomplete fun _ _ => hbehind, if_pos hcomplete,
              skipSpace_steady hskip]
            rw [hskip] at h
            split at h
            · rename_i heq
              cases heq
              rcases hothers : readMembers steps last with ⟨others, closed, last'⟩
              rw [hothers] at h
              cases h
              simp only [ih.members hothers]
            · rename_i heq
              cases heq
              cases h
              rfl
            · cases h
        · cases h
      · cases h
  · cases h

end

/-- What is read in full is also read with more text behind it and with more steps. -/
theorem staysAt (more : List Char) (h : steps ≤ steps') : StaysAt more steps steps' := by
  induction steps generalizing steps' with
  | zero =>
    refine ⟨fun h hcomplete => ?_, fun h => ?_, fun h => ?_⟩
    · cases h; cases hcomplete
    · cases h
    · cases h
  | succ steps ih =>
    obtain ⟨steps', rfl⟩ := Nat.exists_eq_succ_of_ne_zero (show steps' ≠ 0 by omega)
    have ih := @ih steps' (by omega)
    exact ⟨value_steady ih, items_steady ih, members_steady ih⟩

/-- If a value is read in full from the beginning of a printed text, that is the whole text. Only
the beginning of a numeral is a numeral itself. -/
theorem eq_empty_of_isComplete {value : Json} (hvalue : value.Legible) {beginning rest : String}
    (htext : value.toPrettyText = beginning ++ rest)
    (hcomplete : (ofText beginning).1.isComplete = true)
    (hnumber : ∀ number, (ofText beginning).1 ≠ .number number) : rest = "" := by
  have hchars : value.pretty 0 = beginning.toList ++ rest.toList := by
    rw [← String.toList_append, ← htext, Json.toPrettyText, String.toList_ofList]
  rcases hread : readValue (2 * beginning.toList.length + 2) beginning.toList with ⟨found, left⟩
  rw [ofText, hread] at hcomplete hnumber
  have hsteps : 2 * beginning.toList.length + 2 ≤ 2 * (value.pretty 0).length + 2 := by
    rw [hchars, List.length_append]
    omega
  have hmore := (staysAt rest.toList hsteps).value hread hcomplete
    fun number he => absurd he (hnumber number)
  rw [← hchars] at hmore
  -- the whole text leaves nothing, so nothing can stand behind its beginning
  have hwhole := readValue_pretty hvalue 0 (2 * (value.pretty 0).length + 2) [] (by omega) (by simp)
  rw [List.append_nil, hmore] at hwhole
  have hnil : rest.toList = [] := (List.append_eq_nil_iff.mp (Prod.mk.inj hwhole).2).2
  exact String.toList_eq_nil_iff.mp hnil

end Reading

/-! ## 3. Journals that break off -/

/-- A decoded list stands in the text in full. -/
theorem Decoder.list_closed {α : Type} {decode : Decoder α} {depth : Nat} {reading : Reading}
    {values : List α} (h : Decoder.list decode depth reading = .ok values) :
    ∃ items, reading = .array items true := by
  unfold Decoder.list at h
  split at h
  · rename_i items closed
    split at h
    · cases h
    · split at h
      · rename_i hclosed
        exact ⟨items, by rw [hclosed]⟩
      · cases h
  · cases h

/-- Where the text of a journal breaks off, it is no journal. -/
theorem Journal.ofText_beginning {sources found : List Source}
    (hp : ∀ source ∈ sources, source.Printable) {beginning rest : String}
    (htext : toText sources = beginning ++ rest) (hrest : rest ≠ "") :
    ofText beginning ≠ .ok found := by
  intro h
  have hlegible : (Json.ofList Source.toJson sources).Legible :=
    Json.numbersAll_ofList fun source hmem => Source.legible_toJson (hp source hmem)
  obtain ⟨items, hitems⟩ : ∃ items, (Reading.ofText beginning).1 = .array items true := by
    rw [ofText, Decoder.ofText] at h
    dsimp only at h
    cases hlist : Decoder.list Source.decoder Decoder.textDepth (Reading.ofText beginning).1 with
    | error cause =>
      rw [hlist] at h
      cases h
    | ok values => exact Decoder.list_closed hlist
  refine hrest (Reading.eq_empty_of_isComplete hlegible htext ?_ ?_)
  · rw [hitems]
    rfl
  · intro number hnumber
    cases hitems.symm.trans hnumber

end LeaseLog
