import LeaseLog.Proofs.Json.Payloads

/-!
# Records and lists read back

A record that is written as an object in the order of its fields decodes like the list of its
fields. Conversely every field of a record that decodes was decoded from a part of the reading or
has a default.

Results:
1. `record_members`: an object with its members in the order of the fields decodes field by field;
   `record_filter`: members may be missing that would be defaults.
2. `list_ofList`: the array of written values decodes as the values.
3. `record_given`, `list_given`: where the fields and the items that were decoded come from.
-/

namespace LeaseLog.Decoder

/-! ## Definitions -/

/-- Members with the names of fields. -/
def named (fields : List Field) (readings : List Reading) : List (Option String × Reading) :=
  (fields.zip readings).map fun (field, reading) => (some field.name, reading)

/-- A value of a field that was decoded from a part of a text, or is a default. -/
def Field.Given (depth : Nat) (field : Field) (value : field.Value) : Prop :=
  (∃ reading : Reading, reading.Legible ∧ field.decode depth reading = .ok value) ∨
    field.whenMissing = some value ∨ field.whenShort = some value

/-- Values of fields that were decoded from parts of a text, or are defaults. -/
def AllGiven (depth : Nat) : (fields : List Field) → Values fields → Prop
  | [], _ => True
  | field :: fields, (value, values) => field.Given depth value ∧ AllGiven depth fields values

/-- Values met so far that were decoded from parts of a text. -/
def SlotsGiven (depth : Nat) : (fields : List Field) → Slots fields → Prop
  | [], _ => True
  | field :: fields, (slot, slots) =>
    (∀ value, slot = some value → field.Given depth value) ∧ SlotsGiven depth fields slots

variable {depth : Nat} {refuseUnknown : Bool} {field : Field} {fields : List Field}

/-! ## 1. Records in the order of their fields -/

/-- A member of another name is taken by the fields that follow. -/
theorem takeMember_other {name : String} (h : field.name ≠ name) (reading : Reading)
    (slot : Option field.Value) (slots : Slots fields) :
    takeMember depth name reading (field :: fields) (slot, slots) =
      (takeMember depth name reading fields slots).map (Except.map fun slots => (slot, slots)) := by
  rw [takeMember.eq_def]
  refine (if_neg h).trans ?_
  cases takeMember depth name reading fields slots <;> rfl

/-- Members of other names leave the slot of a field alone. -/
theorem takeMembers_skip {members : List (Option String × Reading)}
    (h : ∀ member ∈ members, member.1 ≠ some field.name) (slot : Option field.Value)
    (slots : Slots fields) :
    takeMembers refuseUnknown (field :: fields) depth members (slot, slots) =
      (takeMembers refuseUnknown fields depth members slots).map fun slots => (slot, slots) := by
  induction members generalizing slots with
  | nil => rfl
  | cons member members ih =>
    obtain ⟨name, reading⟩ := member
    obtain ⟨hmember, hmembers⟩ := List.forall_mem_cons.mp h
    cases name with
    | none => rfl
    | some name =>
      have hname : field.name ≠ name := fun heq => hmember (congrArg some heq.symm)
      rw [takeMembers, takeMembers, takeMember_other hname]
      cases takeMember depth name reading fields slots with
      | none =>
        dsimp only [Option.map_none]
        split
        · rfl
        · exact ih hmembers slots
      | some taken =>
        cases taken with
        | error cause => rfl
        | ok slots => exact ih hmembers slots

/-- Members in the order of the fields fill the fields one after another. Those of some names may be
missing, if what would stand there is the default of the field. -/
theorem takeMembers_kept {readings : List Reading} (keep : String → Bool)
    (hnames : (fields.map Field.name).Nodup) (hlength : readings.length = fields.length)
    (hmissing : ∀ pair ∈ fields.zip readings, keep pair.1.name = false →
      ∃ value, pair.1.whenMissing = some value ∧ pair.1.decode depth pair.2 = .ok value) :
    (match takeMembers refuseUnknown fields depth
        ((named fields readings).filter fun member => member.1.all keep) (noSlots fields) with
      | .error cause => .error cause
      | .ok slots => fillMissing fields slots) = takeItems depth fields readings := by
  induction fields generalizing readings with
  | nil =>
    obtain rfl := List.length_eq_zero_iff.mp hlength
    rfl
  | cons field fields ih =>
    obtain ⟨reading, readings, rfl⟩ := List.exists_cons_of_length_eq_add_one hlength
    obtain ⟨hname, hrest⟩ := List.nodup_cons.mp hnames
    obtain ⟨hfirst, hlater⟩ := List.forall_mem_cons.mp hmissing
    have hother : ∀ member ∈ (named fields readings).filter (fun member => member.1.all keep),
        member.1 ≠ some field.name := by
      intro member hmember heq
      obtain ⟨⟨other, reading⟩, hpair, rfl⟩ := List.mem_map.mp (List.mem_filter.mp hmember).1
      exact hname (List.mem_map.mpr ⟨other, (List.of_mem_zip hpair).1, Option.some.inj heq⟩)
    have hrest := ih hrest (Nat.succ.inj hlength) hlater
    rw [takeItems, ← hrest]
    cases hkeep : keep field.name with
    | true =>
      have hmembers : (named (field :: fields) (reading :: readings)).filter
          (fun member => member.1.all keep) = (some field.name, reading) ::
            (named fields readings).filter fun member => member.1.all keep :=
        List.filter_cons_of_pos hkeep
      -- the first member fills the first slot, and the others leave it alone
      rw [hmembers, takeMembers, noSlots, takeMember, if_pos rfl]
      cases field.decode depth reading with
      | error cause => rfl
      | ok value =>
        dsimp only [Except.map]
        rw [takeMembers_skip hother]
        cases takeMembers refuseUnknown fields depth
            ((named fields readings).filter fun member => member.1.all keep) (noSlots fields) with
        | error cause => rfl
        | ok slots => rfl
    | false =>
      have hmembers : (named (field :: fields) (reading :: readings)).filter
          (fun member => member.1.all keep) =
            (named fields readings).filter fun member => member.1.all keep :=
        List.filter_cons_of_neg (by simpa using hkeep)
      obtain ⟨value, hdefault, hdecode⟩ := hfirst hkeep
      -- the slot stays empty until it takes its default
      rw [hmembers, noSlots, takeMembers_skip hother, hdecode]
      cases takeMembers refuseUnknown fields depth
          ((named fields readings).filter fun member => member.1.all keep) (noSlots fields) with
      | error cause => rfl
      | ok slots =>
        dsimp only [Except.map]
        rw [fillMissing, Option.none_or, hdefault]
        rfl

/-- An object with its members in the order of the fields decodes field by field, even if members
are missing that would be the defaults of their fields. -/
theorem record_kept {readings : List Reading} (keep : String → Bool)
    (hnames : (fields.map Field.name).Nodup) (hlength : readings.length = fields.length)
    (hmissing : ∀ pair ∈ fields.zip readings, keep pair.1.name = false →
      ∃ value, pair.1.whenMissing = some value ∧ pair.1.decode depth pair.2 = .ok value) :
    record fields (depth + 1)
        (.object ((named fields readings).filter fun member => member.1.all keep) true) =
      takeItems depth fields readings := by
  rw [← takeMembers_kept keep hnames hlength hmissing, record, recordWith]
  rfl

/-- An object with its members in the order of the fields decodes field by field. -/
theorem record_named {readings : List Reading} (hnames : (fields.map Field.name).Nodup)
    (hlength : readings.length = fields.length) :
    record fields (depth + 1) (.object (named fields readings) true) =
      takeItems depth fields readings := by
  have hall : (named fields readings).filter (fun member => member.1.all fun _ => true) =
      named fields readings := List.filter_eq_self.mpr fun member _ => by cases member.1 <;> rfl
  rw [← record_kept (fun _ => true) hnames hlength fun _ _ hkeep => (by cases hkeep), hall]

/-- Members with the names of fields, in their order. -/
theorem ofMembers_eq_named {members : List (String × Json)}
    (h : members.map Prod.fst = fields.map Field.name) :
    Reading.ofMembers members = named fields (members.map fun member => .ofJson member.2) := by
  induction members generalizing fields with
  | nil =>
    obtain rfl := List.map_eq_nil_iff.mp h.symm
    rfl
  | cons member members ih =>
    obtain ⟨field, fields, rfl, hname, hnames⟩ := List.map_eq_cons_iff.mp h.symm
    rw [Reading.ofMembers, ih hnames.symm, ← hname]
    rfl

theorem ofMembers_filter (keep : String → Bool) (members : List (String × Json)) :
    Reading.ofMembers (members.filter fun member => keep member.1) =
      (Reading.ofMembers members).filter fun member => member.1.all keep := by
  induction members with
  | nil => rfl
  | cons member members ih =>
    obtain ⟨name, value⟩ := member
    rw [List.filter_cons, Reading.ofMembers, List.filter_cons]
    cases hkeep : keep name with
    | true => simp [hkeep, Reading.ofMembers, ih]
    | false => simp [hkeep, ih]

/-- A written object with the members of a record decodes field by field. -/
theorem record_members {members : List (String × Json)}
    (hnames : members.map Prod.fst = fields.map Field.name)
    (hdistinct : (fields.map Field.name).Nodup) :
    record fields (depth + 1) (.ofJson (.object members)) =
      takeItems depth fields (members.map fun member => .ofJson member.2) := by
  have hlength := congrArg List.length hnames
  rw [List.length_map, List.length_map] at hlength
  rw [Reading.ofJson, ofMembers_eq_named hnames,
    record_named hdistinct ((List.length_map _).trans hlength)]

/-- Members of a written object may be missing that would be the defaults of their fields. -/
theorem record_filter (keep : String → Bool) {members : List (String × Json)}
    (hnames : members.map Prod.fst = fields.map Field.name)
    (hdistinct : (fields.map Field.name).Nodup)
    (hmissing : ∀ pair ∈ fields.zip members, keep pair.1.name = false →
      ∃ value, pair.1.whenMissing = some value ∧
        pair.1.decode depth (.ofJson pair.2.2) = .ok value) :
    record fields (depth + 1)
        (.ofJson (.object (members.filter fun member => keep member.1))) =
      record fields (depth + 1) (.ofJson (.object members)) := by
  have hlength := congrArg List.length hnames
  rw [List.length_map, List.length_map] at hlength
  rw [record_members hnames hdistinct, Reading.ofJson, ofMembers_filter, ofMembers_eq_named hnames,
    record_kept keep hdistinct ((List.length_map _).trans hlength)]
  rintro ⟨field, reading⟩ hpair hkeep
  rw [List.zip_map_right] at hpair
  obtain ⟨⟨field, member⟩, hmember, he⟩ := List.mem_map.mp hpair
  cases he
  exact hmissing _ hmember hkeep

/-! ## 2. Lists -/

/-- Written values decode one after another. -/
theorem items_ofItems {α : Type} {decode : Decoder α} {write : α → Json} {fits : α → Prop}
    [DecidablePred fits] {values : List α}
    (h : ∀ value ∈ values, decode depth (.ofJson (write value)) =
      if fits value then .ok value else .error .malformed) :
    items decode depth (Reading.ofItems (values.map write)) =
      if ∀ value ∈ values, fits value then .ok values else .error .malformed := by
  induction values with
  | nil => rfl
  | cons value values ih =>
    obtain ⟨hvalue, hvalues⟩ := List.forall_mem_cons.mp h
    rw [List.map_cons, Reading.ofItems, items, hvalue, ih hvalues]
    simp only [List.forall_mem_cons]
    by_cases hfits : fits value
    · by_cases hrest : ∀ value ∈ values, fits value
      · rw [if_pos hfits, if_pos hrest, if_pos ⟨hfits, hrest⟩]
        rfl
      · rw [if_pos hfits, if_neg hrest, if_neg fun hall => hrest hall.2]
        rfl
    · have hall : ¬(fits value ∧ ∀ value ∈ values, fits value) := fun hall => hfits hall.1
      rw [if_neg hfits, if_neg hall]

/-- The array of written values decodes as the values. -/
theorem list_ofList {α : Type} {decode : Decoder α} {write : α → Json} {fits : α → Prop}
    [DecidablePred fits] {values : List α}
    (h : ∀ value ∈ values, decode depth (.ofJson (write value)) =
      if fits value then .ok value else .error .malformed) :
    list decode (depth + 1) (.ofJson (.array (values.map write))) =
      if ∀ value ∈ values, fits value then .ok values else .error .malformed := by
  rw [Reading.ofJson, list, items_ofItems h]
  by_cases hfits : ∀ value ∈ values, fits value
  · rw [if_pos hfits]
    rfl
  · rw [if_neg hfits]

/-- Two arrays are read alike if their items are, each at its place. -/
theorem list_mapIdx {α β : Type} {decode : Decoder α} {values : List β} {write : β → Json}
    {f : Nat → β → Json} {g : Nat → β → β}
    (h : ∀ index value, decode depth (.ofJson (f index value)) =
      decode depth (.ofJson (write (g index value)))) :
    list decode (depth + 1) (.ofJson (.array (values.mapIdx f))) =
      list decode (depth + 1) (.ofJson (.array ((values.mapIdx g).map write))) := by
  have hitems : items decode depth (Reading.ofItems (values.mapIdx f)) =
      items decode depth (Reading.ofItems ((values.mapIdx g).map write)) := by
    induction values generalizing f g with
    | nil => rfl
    | cons value values ih =>
      rw [List.mapIdx_cons, List.mapIdx_cons, List.map_cons, Reading.ofItems, Reading.ofItems,
        items, items, h, ih fun index => h (index + 1)]
  rw [Reading.ofJson, Reading.ofJson, list, list, hitems]

/-! ## 3. Where decoded values come from -/

theorem takeMember_given {name : String} {reading : Reading} (hreading : reading.Legible)
    {slots slots' : Slots fields} (hslots : SlotsGiven depth fields slots)
    (h : takeMember depth name reading fields slots = some (.ok slots')) :
    SlotsGiven depth fields slots' := by
  induction fields with
  | nil => cases h
  | cons field fields ih =>
    obtain ⟨slot, slots⟩ := slots
    obtain ⟨hslot, hrest⟩ := hslots
    rw [takeMember.eq_def] at h
    dsimp only at h
    split at h
    · split at h
      · cases h
      · obtain ⟨value, hdecode, rfl⟩ := ok_of_map (Option.some.inj h)
        refine ⟨?_, hrest⟩
        rintro other heq
        obtain rfl := Option.some.inj heq
        exact .inl ⟨reading, hreading, hdecode⟩
    · split at h
      · cases h
      · rename_i taken htaken
        obtain ⟨slots, rfl, rfl⟩ := ok_of_map (Option.some.inj h)
        exact ⟨hslot, ih hrest htaken⟩

theorem takeMembers_given {members : List (Option String × Reading)}
    (hmembers : ∀ member ∈ members, member.2.Legible) {slots slots' : Slots fields}
    (hslots : SlotsGiven depth fields slots)
    (h : takeMembers refuseUnknown fields depth members slots = .ok slots') :
    SlotsGiven depth fields slots' := by
  induction members generalizing slots with
  | nil =>
    cases h
    exact hslots
  | cons member members ih =>
    obtain ⟨name, reading⟩ := member
    obtain ⟨hmember, hrest⟩ := List.forall_mem_cons.mp hmembers
    cases name with
    | none => cases h
    | some name =>
      rw [takeMembers] at h
      split at h
      · cases h
      · rename_i taken htaken
        exact ih hrest (takeMember_given hmember hslots htaken) h
      · split at h
        · cases h
        · exact ih hrest hslots h

theorem noSlots_given : SlotsGiven depth fields (noSlots fields) := by
  induction fields with
  | nil => trivial
  | cons field fields ih => exact ⟨by simp, ih⟩

theorem fillMissing_given {slots : Slots fields} {values : Values fields}
    (hslots : SlotsGiven depth fields slots) (h : fillMissing fields slots = .ok values) :
    AllGiven depth fields values := by
  induction fields with
  | nil => trivial
  | cons field fields ih =>
    obtain ⟨slot, slots⟩ := slots
    obtain ⟨hslot, hrest⟩ := hslots
    rw [fillMissing] at h
    split at h
    · cases h
    · rename_i value hvalue
      obtain ⟨values, hfill, rfl⟩ := ok_of_map h
      refine ⟨?_, ih hrest hfill⟩
      cases slot with
      | none => exact .inr (.inl hvalue)
      | some met => exact hslot value hvalue

theorem takeItems_given {readings : List Reading}
    (hreadings : ∀ reading ∈ readings, reading.Legible) {values : Values fields}
    (h : takeItems depth fields readings = .ok values) : AllGiven depth fields values := by
  induction fields generalizing readings with
  | nil => trivial
  | cons field fields ih =>
    cases readings with
    | nil =>
      -- the list is too short, which only a default makes up for
      rw [takeItems] at h
      split at h
      · cases h
      · rename_i value hvalue
        obtain ⟨values, hrest, rfl⟩ := ok_of_map h
        exact ⟨.inr (.inr hvalue), ih hreadings hrest⟩
    | cons reading readings =>
      obtain ⟨hreading, hreadings⟩ := List.forall_mem_cons.mp hreadings
      rw [takeItems] at h
      split at h
      · cases h
      · rename_i value hvalue
        obtain ⟨values, hrest, rfl⟩ := ok_of_map h
        exact ⟨.inl ⟨reading, hreading, hvalue⟩, ih hreadings hrest⟩

/-- The fields of a record were decoded from parts of its reading, or are defaults. -/
theorem record_given {reading : Reading} (hreading : reading.Legible) {values : Values fields}
    (h : record fields depth reading = .ok values) :
    ∃ below, depth = below + 1 ∧ AllGiven below fields values := by
  rw [record, recordWith.eq_def] at h
  split at h
  · rename_i below members closed
    rw [Reading.Legible, Reading.membersLegible_iff] at hreading
    split at h
    · cases h
    · rename_i slots hslots
      split at h
      · exact ⟨below, rfl, fillMissing_given (takeMembers_given hreading noSlots_given hslots) h⟩
      · cases h
  · rename_i below readings closed
    rw [Reading.Legible, Reading.itemsLegible_iff] at hreading
    split at h
    · cases h
    · rename_i values' hvalues
      split at h
      · cases h
        exact ⟨below, rfl, takeItems_given hreading hvalues⟩
      · cases h
  · cases h

theorem items_given {α : Type} {decode : Decoder α} {readings : List Reading} {values : List α}
    (hreadings : ∀ reading ∈ readings, reading.Legible)
    (h : items decode depth readings = .ok values) :
    ∀ value ∈ values, ∃ reading : Reading, reading.Legible ∧ decode depth reading = .ok value := by
  induction readings generalizing values with
  | nil =>
    cases h
    simp
  | cons reading readings ih =>
    obtain ⟨hreading, hreadings⟩ := List.forall_mem_cons.mp hreadings
    rw [items] at h
    split at h
    · cases h
    · rename_i value hvalue
      obtain ⟨rest, hrest, rfl⟩ := ok_of_map h
      exact List.forall_mem_cons.mpr ⟨⟨reading, hreading, hvalue⟩, ih hreadings hrest⟩

/-- The items of a list were decoded from the items of its reading. -/
theorem list_given {α : Type} {decode : Decoder α} {reading : Reading} {values : List α}
    (hreading : reading.Legible) (h : list decode depth reading = .ok values) :
    ∃ below, depth = below + 1 ∧ ∀ value ∈ values, ∃ item : Reading,
      item.Legible ∧ decode below item = .ok value := by
  rw [list.eq_def] at h
  split at h
  · rename_i below readings closed
    rw [Reading.Legible, Reading.itemsLegible_iff] at hreading
    split at h
    · cases h
    · rename_i values' hvalues
      split at h
      · cases h
        exact ⟨below, rfl, items_given hreading hvalues⟩
      · cases h
  · cases h

end LeaseLog.Decoder
