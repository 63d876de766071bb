import LeaseLog.Json.Decoder
import LeaseLog.Proofs.Json.Texts

/-!
# Payloads read back

A payload comes out of a text with its members in order, with numbers that can be printed, and no
deeper than the text may nest. Conversely the reading of such a value decodes as the value, unless
it nests too deep.

Results:
1. `read_legible`: the numbers of a text are numbers that can be printed.
2. `payload_spec`: what a payload looks like.
3. `payload_ofJson`: when the reading of a value decodes as the value.
-/

namespace LeaseLog

/-! ## Definitions -/

namespace Reading

mutual

/-- Whether all numbers of a reading are numbers of a text. -/
def Legible : Reading → Prop
  | .number (some value) => value.Valid
  | .array items _ => ItemsLegible items
  | .object members _ => MembersLegible members
  | .null | .bool _ | .number none | .string _ | .broken => True

/-- Whether all numbers of items are numbers of a text. -/
def ItemsLegible : List Reading → Prop
  | [] => True
  | item :: items => item.Legible ∧ ItemsLegible items

/-- Whether all numbers of members are numbers of a text. -/
def MembersLegible : List (Option String × Reading) → Prop
  | [] => True
  | (_, value) :: members => value.Legible ∧ MembersLegible members

end

theorem itemsLegible_iff {items : List Reading} :
    ItemsLegible items ↔ ∀ item ∈ items, item.Legible := by
  induction items with
  | nil => simp [ItemsLegible]
  | cons item items ih => rw [ItemsLegible, ih, List.forall_mem_cons]

theorem membersLegible_iff {members : List (Option String × Reading)} :
    MembersLegible members ↔ ∀ member ∈ members, member.2.Legible := by
  induction members with
  | nil => simp [MembersLegible]
  | cons member members ih => rw [MembersLegible, ih, List.forall_mem_cons]

/-- A property of a reading that the properties of its items and members imply. -/
@[elab_as_elim]
theorem induction {motive : Reading → Prop} (null : motive .null)
    (bool : ∀ value, motive (.bool value)) (number : ∀ value, motive (.number value))
    (string : ∀ value, motive (.string value))
    (array : ∀ items closed, (∀ item ∈ items, motive item) → motive (.array items closed))
    (object : ∀ members closed, (∀ member ∈ members, motive member.2) →
      motive (.object members closed))
    (broken : motive .broken) (reading : Reading) : motive reading :=
  @Reading.rec motive (fun items => ∀ item ∈ items, motive item)
    (fun members => ∀ member ∈ members, motive member.2) (fun member => motive member.2)
    null bool number string (fun items closed h => array items closed h)
    (fun members closed h => object members closed h) broken (fun _ h => absurd h List.not_mem_nil)
    (fun _ _ hitem hitems => List.forall_mem_cons.mpr ⟨hitem, hitems⟩)
    (fun _ h => absurd h List.not_mem_nil)
    (fun _ _ hmember hmembers => List.forall_mem_cons.mpr ⟨hmember, hmembers⟩)
    (fun _ _ hvalue => hvalue) reading

/-! ## 1. The numbers of a text -/

theorem readUnsigned_legible (negative : Bool) (cs : List Char) :
    (readUnsigned negative cs).1.Legible := by
  unfold readUnsigned
  split
  · trivial
  · split
    · trivial
    · split
      · trivial
      · rename_i whole _ _ _ fraction _ _ _ exponent _ _
        dsimp only
        cases hnumber : Number.ofNumeral ⟨negative, whole, fraction, exponent⟩ with
        | none => trivial
        | some number => exact Number.Valid.of_ofNumeral hnumber

theorem readNumber_legible (cs : List Char) : (readNumber cs).1.Legible := by
  unfold readNumber
  split <;> exact readUnsigned_legible _ _

theorem readName_legible {value : Reading} (h : value.Legible) (letters cs : List Char) :
    (readName letters value cs).1.Legible := by
  unfold readName
  split
  · exact h
  · trivial

/-- Whatever is read, its numbers are numbers of a text. -/
theorem read_legible (steps : Nat) :
    (∀ cs, (readValue steps cs).1.Legible) ∧ (∀ cs, ItemsLegible (readItems steps cs).1) ∧
      ∀ cs, MembersLegible (readMembers steps cs).1 := by
  induction steps with
  | zero => exact ⟨fun _ => trivial, fun _ => trivial, fun _ => trivial⟩
  | succ steps ih =>
    obtain ⟨hvalue, hitems, hmembers⟩ := ih
    refine ⟨fun cs => ?_, fun cs => ?_, fun cs => ?_⟩
    · unfold readValue
      split
      · trivial
      · exact @readName_legible .null trivial _ _
      · exact @readName_legible (.bool true) trivial _ _
      · exact @readName_legible (.bool false) trivial _ _
      · split <;> trivial
      · split
        · trivial
        · exact hitems _
      · split
        · trivial
        · exact hmembers _
      · split
        · exact readNumber_legible _
        · trivial
    · unfold readItems
      dsimp only
      split
      · split
        · exact ⟨hvalue _, hitems _⟩
        · exact ⟨hvalue _, trivial⟩
        · exact ⟨hvalue _, trivial⟩
      · exact ⟨hvalue _, trivial⟩
    · unfold readMembers
      split
      · split
        · trivial
        · split
          · dsimp only
            split
            · split
              · exact ⟨hvalue _, hmembers _⟩
              · exact ⟨hvalue _, trivial⟩
              · exact ⟨hvalue _, trivial⟩
            · exact ⟨hvalue _, trivial⟩
          · exact ⟨trivial, trivial⟩
      · trivial

theorem ofText_legible (text : String) : (ofText text).1.Legible := by
  unfold ofText
  exact (read_legible _).1 _

end Reading

/-! ## 2. What a payload looks like -/

namespace Json

variable {name : String} {value : Json} {members : List (String × Json)}

theorem mem_insertMember {member : String × Json} (h : member ∈ insertMember name value members) :
    member = (name, value) ∨ member ∈ members := by
  induction members with
  | nil => exact .inl (List.mem_singleton.mp h)
  | cons first members ih =>
    obtain ⟨other, kept⟩ := first
    rw [insertMember] at h
    split at h
    · exact (List.mem_cons.mp h).imp_right id
    · exact (List.mem_cons.mp h).imp_right (List.mem_cons_of_mem _)
    · rcases List.mem_cons.mp h with rfl | h
      · exact .inr List.mem_cons_self
      · exact (ih h).imp_right (List.mem_cons_of_mem _)

theorem sortedNames_insertMember (h : SortedNames members) :
    SortedNames (insertMember name value members) := by
  induction members with
  | nil => exact List.pairwise_singleton _ _
  | cons first members ih =>
    obtain ⟨other, kept⟩ := first
    obtain ⟨hfirst, hrest⟩ := List.pairwise_cons.mp h
    rw [insertMember]
    split
    · rename_i hlt
      refine List.pairwise_cons.mpr ⟨fun member hmember => ?_, h⟩
      rcases List.mem_cons.mp hmember with rfl | hmember
      · exact hlt
      · exact Std.TransCmp.lt_trans hlt (hfirst member hmember)
    · rename_i heq
      obtain rfl := Std.LawfulEqCmp.eq_of_compare heq
      exact List.pairwise_cons.mpr ⟨hfirst, hrest⟩
    · rename_i hgt
      refine List.pairwise_cons.mpr ⟨fun member hmember => ?_, ih hrest⟩
      rcases mem_insertMember hmember with rfl | hmember
      · exact Std.OrientedCmp.lt_of_gt hgt
      · exact hfirst member hmember

/-- A member behind all others is put at the end. -/
theorem insertMember_of_lt (h : ∀ member ∈ members, compare member.1 name = .lt) :
    insertMember name value members = members ++ [(name, value)] := by
  induction members with
  | nil => rfl
  | cons first members ih =>
    obtain ⟨other, kept⟩ := first
    obtain ⟨hfirst, hrest⟩ := List.forall_mem_cons.mp h
    have hgt : compare name other = .gt := Std.OrientedCmp.gt_of_lt hfirst
    rw [insertMember, hgt]
    simp only [List.cons_append, ih hrest]

/-- A value that a text can hold as a payload: printable numbers, members in order, and nesting
within a budget. -/
structure Storable (depth : Nat) (value : Json) : Prop where
  legible : value.Legible
  sorted : value.Sorted
  height_le : value.height ≤ depth

end Json

namespace Decoder

variable {depth : Nat}

/-- What decodes with a change decodes without it. -/
theorem ok_of_map {α β : Type*} {f : α → β} {found : Except DecodeError α} {result : β}
    (h : found.map f = .ok result) : ∃ value, found = .ok value ∧ f value = result := by
  cases found with
  | error cause => cases h
  | ok value => exact ⟨value, rfl, Except.ok.inj h⟩

theorem payloadItems_spec {readings : List Reading} {values : List Json}
    (ih : ∀ reading ∈ readings, ∀ value, payload depth reading = .ok value →
      value.Storable depth)
    (h : payloadItems depth readings = .ok values) : ∀ value ∈ values, value.Storable depth := by
  induction readings generalizing values with
  | nil =>
    cases h
    simp
  | cons reading readings ihReadings =>
    obtain ⟨hreading, hreadings⟩ := List.forall_mem_cons.mp ih
    rw [payloadItems] at h
    split at h
    · cases h
    · rename_i value hvalue
      obtain ⟨rest, hrest, rfl⟩ := ok_of_map h
      exact List.forall_mem_cons.mpr ⟨hreading value hvalue, ihReadings hreadings hrest⟩

theorem payloadMembers_spec {readings : List (Option String × Reading)}
    {sorted members : List (String × Json)}
    (ih : ∀ reading ∈ readings, ∀ value, payload depth reading.2 = .ok value →
      value.Storable depth)
    (hnames : Json.SortedNames sorted) (hsorted : ∀ member ∈ sorted, member.2.Storable depth)
    (h : payloadMembers depth readings sorted = .ok members) :
    Json.SortedNames members ∧ ∀ member ∈ members, member.2.Storable depth := by
  induction readings generalizing sorted with
  | nil =>
    cases h
    exact ⟨hnames, hsorted⟩
  | cons reading readings ihReadings =>
    obtain ⟨hreading, hreadings⟩ := List.forall_mem_cons.mp ih
    obtain ⟨name, reading⟩ := reading
    cases name with
    | none => cases h
    | some name =>
      rw [payloadMembers] at h
      split at h
      · cases h
      · rename_i value hvalue
        refine ihReadings hreadings (Json.sortedNames_insertMember hnames) ?_ h
        intro member hmember
        rcases Json.mem_insertMember hmember with rfl | hmember
        · exact hreading value hvalue
        · exact hsorted member hmember

/-- Whatever decodes as a payload can be stored as one. -/
theorem payload_spec {reading : Reading} (hreading : reading.Legible) {depth : Nat} {value : Json}
    (h : payload depth reading = .ok value) : value.Storable depth := by
  induction reading using Reading.induction generalizing depth value with
  | null =>
    cases depth <;> cases h <;> exact ⟨trivial, trivial, Nat.zero_le _⟩
  | bool value =>
    cases depth <;> cases h <;> exact ⟨trivial, trivial, Nat.zero_le _⟩
  | number number =>
    cases number with
    | none => cases depth <;> cases h
    | some number => cases depth <;> cases h <;> exact ⟨hreading, trivial, Nat.zero_le _⟩
  | string text =>
    cases text with
    | none => cases depth <;> cases h
    | some text => cases depth <;> cases h <;> exact ⟨trivial, trivial, Nat.zero_le _⟩
  | array readings closed ih =>
    cases depth with
    | zero => cases h
    | succ depth =>
      rw [payload] at h
      split at h
      · cases h
      · rename_i values hvalues
        split at h
        · cases h
          rw [Reading.Legible, Reading.itemsLegible_iff] at hreading
          have hspec := payloadItems_spec
            (fun reading hmem value => ih reading hmem (hreading reading hmem)) hvalues
          exact ⟨Json.numbersAll_array.mpr fun item hitem => (hspec item hitem).legible,
            Json.sorted_array.mpr fun item hitem => (hspec item hitem).sorted,
            Json.height_array_le.mpr fun item hitem => (hspec item hitem).height_le⟩
        · cases h
  | object readings closed ih =>
    cases depth with
    | zero => cases h
    | succ depth =>
      rw [payload] at h
      split at h
      · cases h
      · rename_i members hmembers
        split at h
        · cases h
          rw [Reading.Legible, Reading.membersLegible_iff] at hreading
          obtain ⟨hnames, hspec⟩ := payloadMembers_spec
            (fun reading hmem value => ih reading hmem (hreading reading hmem))
            List.Pairwise.nil (by simp) hmembers
          exact ⟨Json.numbersAll_object.mpr fun member hmem => (hspec member hmem).legible,
            Json.sorted_object.mpr ⟨hnames, fun member hmem => (hspec member hmem).sorted⟩,
            Json.height_object_le.mpr fun member hmem => (hspec member hmem).height_le⟩
        · cases h
  | broken => cases depth <;> cases h

/-! ## 3. Readings of values -/

theorem payloadItems_ofItems {items : List Json}
    (ih : ∀ item ∈ items, payload depth (.ofJson item) =
      if item.height ≤ depth then .ok item else .error .malformed) :
    payloadItems depth (Reading.ofItems items) =
      if Json.itemsHeight items ≤ depth then .ok items else .error .malformed := by
  induction items with
  | nil => rfl
  | cons item items ihItems =>
    obtain ⟨hitem, hitems⟩ := List.forall_mem_cons.mp ih
    rw [Reading.ofItems, payloadItems, hitem, ihItems hitems, Json.itemsHeight]
    by_cases hfits : item.height ≤ depth
    · by_cases hrest : Json.itemsHeight items ≤ depth
      · simp [hfits, hrest, Except.map]
      · simp [hfits, hrest, Except.map]
    · simp [hfits]

theorem payloadMembers_ofMembers {members sorted : List (String × Json)}
    (ih : ∀ member ∈ members, payload depth (.ofJson member.2) =
      if member.2.height ≤ depth then .ok member.2 else .error .malformed)
    (hnames : Json.SortedNames (sorted ++ members)) :
    payloadMembers depth (Reading.ofMembers members) sorted =
      if Json.membersHeight members ≤ depth then .ok (sorted ++ members)
      else .error .malformed := by
  -- what was taken so far is in order and stands before the rest, so each member goes to its end
  induction members generalizing sorted with
  | nil => simp [Reading.ofMembers, payloadMembers, Json.membersHeight]
  | cons member members ihMembers =>
    obtain ⟨name, value⟩ := member
    obtain ⟨hmember, hmembers⟩ := List.forall_mem_cons.mp ih
    have hbefore : ∀ member ∈ sorted, compare member.1 name = .lt := fun member hmem =>
      (List.pairwise_append.mp hnames).2.2 member hmem (name, value) List.mem_cons_self
    have hnext : Json.SortedNames ((sorted ++ [(name, value)]) ++ members) := by
      rwa [List.append_assoc, List.singleton_append]
    rw [Reading.ofMembers, payloadMembers, hmember, Json.membersHeight]
    by_cases hfits : value.height ≤ depth
    · rw [if_pos hfits]
      dsimp only
      rw [Json.insertMember_of_lt hbefore, ihMembers hmembers hnext]
      simp [hfits]
    · simp [hfits]

/-- The reading of a value with its members in order decodes as the value, unless it nests too
deep. -/
theorem payload_ofJson {value : Json} (h : value.Sorted) (depth : Nat) :
    payload depth (.ofJson value) =
      if value.height ≤ depth then .ok value else .error .malformed := by
  induction value using Json.induction generalizing depth with
  | null => cases depth <;> rfl
  | bool value => cases depth <;> rfl
  | number value => cases depth <;> rfl
  | string value => cases depth <;> rfl
  | array items ih =>
    rw [Json.sorted_array] at h
    cases depth with
    | zero => rfl
    | succ depth =>
      rw [Reading.ofJson, payload,
        payloadItems_ofItems fun item hitem => ih item hitem (h item hitem) depth, Json.height]
      by_cases hfits : Json.itemsHeight items ≤ depth <;> simp [hfits]
  | object members ih =>
    obtain ⟨hnames, hvalues⟩ := Json.sorted_object.mp h
    cases depth with
    | zero => rfl
    | succ depth =>
      rw [Reading.ofJson, payload, payloadMembers_ofMembers
        (fun member hmem => ih member hmem (hvalues member hmem) depth) (by simpa using hnames),
        Json.height]
      by_cases hfits : Json.membersHeight members ≤ depth <;> simp [hfits]

end Decoder

end LeaseLog
