import LeaseLog.Proofs.Json.Journal

/-!
# Sources that are read back as they were

The numbers of most payloads are integers, and those are read as what they were printed as. So a
journal with such payloads is read back as the sources that it was written for, unless its text
nests deeper than a text may. What nests that deep is always a payload: the lists of a message nest
no deeper than two levels.

The lists of a message may be missing in a text, as they are in one that was written by hand. A
missing list is read as an empty one.

Results:
1. `Source.height_toJson_le`: how deep the text of sources nests.
2. `Message.decoder_toJsonWithout`: the form of a message without some of its lists decodes as the
   message in which these lists are empty.
3. `Journal.round_trip`: what the text of sources is read back as, with and without these lists.
-/

namespace LeaseLog

/-! ## Definitions -/

/-- The lists of a message. -/
inductive MessageList
  | addLeases
  | removeLeases
  | addTags
  | removeTags
deriving DecidableEq

/-- The list that a member of a message holds. -/
def MessageList.ofName? : String → Option MessageList
  | "add_leases" => some .addLeases
  | "remove_leases" => some .removeLeases
  | "add_tags" => some .addTags
  | "remove_tags" => some .removeTags
  | _ => none

/-- Whether a member of a message is there, if some of the lists are missing. -/
def MessageList.isKept (missing : MessageList → Bool) (name : String) : Bool :=
  (ofName? name).all fun list => !missing list

namespace Message

/-- The message in which some of the lists are empty. -/
def without (missing : MessageList → Bool) (message : Message) : Message := { message with
  addLeases := if missing .addLeases then [] else message.addLeases
  removeLeases := if missing .removeLeases then [] else message.removeLeases
  addTags := if missing .addTags then [] else message.addTags
  removeTags := if missing .removeTags then [] else message.removeTags }

/-- The form of a message in which some of the lists are missing. -/
def toJsonWithout (missing : MessageList → Bool) (message : Message) : Json :=
  match message.toJson with
  | .object members => .object (members.filter fun member => MessageList.isKept missing member.1)
  | value => value

end Message

namespace Source

/-- The source in which some of the lists of each message are empty. -/
def without (missing : Nat → MessageList → Bool) (source : Source) : Source := { source with
  messages := source.messages.mapIdx fun index => Message.without (missing index) }

/-- The form of a source in which some of the lists of each message are missing. -/
def toJsonWithout (missing : Nat → MessageList → Bool) (source : Source) : Json :=
  .object [("id", source.id.toJson), ("timestamp", source.timestamp.toJson),
    ("agent", source.agent.toJson),
    ("messages", .array (source.messages.mapIdx fun index =>
      Message.toJsonWithout (missing index)))]

end Source

namespace Journal

/-- The sources in which some of the lists of each message of each source are empty. -/
def without (missing : Nat → Nat → MessageList → Bool) (sources : List Source) : List Source :=
  sources.mapIdx fun index => Source.without (missing index)

/-- The form of sources in which some of the lists of each message of each source are missing. -/
def toJsonWithout (missing : Nat → Nat → MessageList → Bool) (sources : List Source) : Json :=
  .array (sources.mapIdx fun index => Source.toJsonWithout (missing index))

end Journal

/-! ## 1. How deep a text nests -/

section

variable {depth : Nat}

theorem Envelope.height_toJson_le {envelope : Envelope} :
    envelope.toJson.height ≤ depth + 2 ↔ envelope.data.height ≤ depth + 1 := by
  rw [Envelope.toJson, Json.height_object_le]
  simp [DataType.toJson, Json.height, Json.membersHeight]

/-- The lists of a message do not nest deeper than an envelope has to. -/
theorem Message.height_toJson_le {message : Message} :
    message.toJson.height ≤ depth + 3 ↔ message.delta.data.height ≤ depth + 1 := by
  have hlease (leases : List Lease) : (Json.ofList Lease.toJson leases).height ≤ depth + 2 := by
    rw [Json.ofList, Json.height_array_le, List.forall_mem_map]
    intro lease _
    simp [Lease.toJson, Json.height, Json.membersHeight]
  have htag (tags : List Tag) : (Json.ofList Tag.toJson tags).height ≤ depth + 2 := by
    rw [Json.ofList, Json.height_array_le, List.forall_mem_map]
    intro tag _
    simp [Tag.toJson, Json.height, Json.membersHeight]
  have hstate : message.state.toJson.height ≤ depth + 2 := by
    simp [Pointer.toJson, Ident.toJson, Version.toJson, Json.nat, Json.height, Json.membersHeight]
  rw [Message.toJson, Json.height_object_le]
  simp [hstate, hlease, htag, Envelope.height_toJson_le]

theorem Source.height_toJson_le {source : Source} : source.toJson.height ≤ 126 ↔ source.Fits := by
  have hagent : source.agent.toJson.height ≤ 125 ↔
      source.agent.data.height ≤ Journal.agentDepth := Envelope.height_toJson_le
  have hmessages : (Json.ofList Message.toJson source.messages).height ≤ 125 ↔
      ∀ message ∈ source.messages, message.delta.data.height ≤ Journal.deltaDepth := by
    rw [Json.ofList, Json.height_array_le, List.forall_mem_map]
    exact forall₂_congr fun _ _ => Message.height_toJson_le
  have hid : source.id.toJson.height ≤ 125 := Nat.zero_le _
  have htime : source.timestamp.toJson.height ≤ 125 := Nat.zero_le _
  rw [Source.toJson, Json.height_object_le]
  simp only [List.forall_mem_cons, List.not_mem_nil, false_implies, implies_true, and_true, hid,
    htime, hagent, hmessages, true_and]
  exact ⟨fun h => ⟨h.1, h.2⟩, fun h => ⟨h.agent, h.deltas⟩⟩

end

namespace Journal

/-- The text of sources nests as deep as a text may, or less, if and only if all payloads fit. -/
theorem height_toJson_le {sources : List Source} :
    (Json.ofList Source.toJson sources).height ≤ Decoder.textDepth ↔
      ∀ source ∈ sources, source.Fits := by
  rw [Json.ofList, Decoder.textDepth, Json.height_array_le, List.forall_mem_map]
  exact forall₂_congr fun _ _ => Source.height_toJson_le

end Journal

/-! ## 2. Forms with missing lists -/

section

variable {missing : MessageList → Bool} {message : Message}

/-- A list that is missing may as well have been empty. -/
theorem Message.toJsonWithout_without :
    (message.without missing).toJsonWithout missing = message.toJsonWithout missing := by
  unfold Message.toJsonWithout Message.toJson Message.without
  dsimp only
  cases hal : missing .addLeases <;> cases hrl : missing .removeLeases <;>
    cases hat : missing .addTags <;> cases hrt : missing .removeTags <;>
    simp [MessageList.isKept, MessageList.ofName?, hal, hrl, hat, hrt]

/-- The form of a message without some of its lists decodes as the message in which these lists are
empty. -/
theorem Message.decoder_toJsonWithout {depth : Nat} :
    Message.decoder (depth + 2) (.ofJson (message.toJsonWithout missing)) =
      Message.decoder (depth + 2) (.ofJson (message.without missing).toJson) := by
  have hlist {α : Type} {decode : Decoder α} {values : List α} {write : α → Json} (name : String)
      (list : MessageList) (hname : MessageList.ofName? name = some list)
      (hkeep : MessageList.isKept missing name = false) :
      ∃ value, (Decoder.withDefault name decode.list []).whenMissing = some value ∧
        decode.list (depth + 1)
          (.ofJson (.ofList write (if missing list then [] else values))) = .ok value := by
    have hmissing : missing list = true := by simpa [MessageList.isKept, hname] using hkeep
    rw [if_pos hmissing]
    exact ⟨[], rfl, rfl⟩
  rw [← Message.toJsonWithout_without, Message.decoder, Decoder.map, Decoder.map,
    Message.toJsonWithout, Message.toJson]
  dsimp only
  rw [Decoder.record_filter (MessageList.isKept missing) rfl (by decide)]
  simp only [List.zip_cons_cons, List.zip_nil_left, List.forall_mem_cons]
  refine ⟨fun hkeep => ?_, fun hkeep => ?_, hlist "add_leases" .addLeases rfl,
    hlist "remove_leases" .removeLeases rfl, hlist "add_tags" .addTags rfl,
    hlist "remove_tags" .removeTags rfl, fun _ hmem => absurd hmem List.not_mem_nil⟩
  -- the state and the delta are always there
  · cases hkeep
  · cases hkeep

end

/-- The same for a source. -/
theorem Source.decoder_toJsonWithout {depth : Nat} {missing : Nat → MessageList → Bool}
    {source : Source} :
    Source.decoder (depth + 4) (.ofJson (source.toJsonWithout missing)) =
      Source.decoder (depth + 4) (.ofJson (source.without missing).toJson) := by
  have hmessages : Decoder.list Message.decoder (depth + 3)
      (.ofJson (.array (source.messages.mapIdx fun index =>
        Message.toJsonWithout (missing index)))) =
      Decoder.list Message.decoder (depth + 3)
        (.ofJson (.ofList Message.toJson (source.without missing).messages)) :=
    Decoder.list_mapIdx fun _ _ => Message.decoder_toJsonWithout
  rw [Source.decoder, Decoder.map, Decoder.map, Source.toJsonWithout, Source.toJson,
    Decoder.record_members rfl (by decide), Decoder.record_members rfl (by decide)]
  simp only [List.map_cons, List.map_nil, Decoder.takeItems, Decoder.required, hmessages,
    Source.without]

/-! ### What such a form is made of -/

section

variable {α β : Type} {values : List α} {f : Nat → α → β} {p : α → Prop} {q : β → Prop}

theorem forall_mem_mapIdx (h : ∀ index, ∀ value ∈ values, q (f index value)) :
    ∀ result ∈ values.mapIdx f, q result := by
  intro result hmem
  obtain ⟨index, hlt, rfl⟩ := List.mem_mapIdx.mp hmem
  exact h index _ (List.getElem_mem hlt)

theorem forall_mem_mapIdx_iff (h : ∀ index value, q (f index value) ↔ p value) :
    (∀ result ∈ values.mapIdx f, q result) ↔ ∀ value ∈ values, p value := by
  refine ⟨fun hall value hmem => ?_,
    fun hall => forall_mem_mapIdx fun index value hmem => (h index value).mpr (hall value hmem)⟩
  obtain ⟨index, hlt, rfl⟩ := List.getElem_of_mem hmem
  exact (h index _).mp (hall _ (List.mem_mapIdx.mpr ⟨index, hlt, rfl⟩))

end

theorem Version.integral_toJson (version : Version) : version.toJson.Integral :=
  ⟨version.legible_toJson, _, rfl⟩

theorem Message.integral_toJsonWithout {missing : MessageList → Bool} {message : Message}
    (h : message.delta.data.Integral) : (message.toJsonWithout missing).Integral := by
  have hall : message.toJson.Integral :=
    Message.numbersAll_toJson (Version.integral_toJson _) h
  rw [Message.toJson, Json.Integral, Json.numbersAll_object] at hall
  rw [Message.toJsonWithout, Message.toJson, Json.Integral, Json.numbersAll_object]
  exact fun member hmem => hall member (List.mem_filter.mp hmem).1

section

variable {missing : Nat → MessageList → Bool} {source : Source}

theorem Source.integral_toJsonWithout (h : source.Integral) :
    (source.toJsonWithout missing).Integral :=
  ⟨trivial, trivial, Envelope.numbersAll_toJson h.agent,
    Json.numbersAll_array.mpr (forall_mem_mapIdx fun _ message hmem =>
      Message.integral_toJsonWithout (h.deltas message hmem)), trivial⟩

/-- The payloads are as they were. -/
theorem Source.forall_deltas_without (p : Envelope → Prop) :
    (∀ message ∈ (source.without missing).messages, p message.delta) ↔
      ∀ message ∈ source.messages, p message.delta :=
  forall_mem_mapIdx_iff fun _ _ => Iff.rfl

theorem Source.printable_without (h : source.Printable) : (source.without missing).Printable :=
  ⟨h.year, h.agent, (Source.forall_deltas_without Envelope.Printable).mpr h.deltas⟩

theorem Source.integral_without (h : source.Integral) : (source.without missing).Integral :=
  ⟨h.agent, (Source.forall_deltas_without fun delta => delta.data.Integral).mpr h.deltas⟩

theorem Source.fits_without : (source.without missing).Fits ↔ source.Fits := by
  have hdeltas : (∀ message ∈ (source.without missing).messages,
      message.delta.data.height ≤ Journal.deltaDepth) ↔
      ∀ message ∈ source.messages, message.delta.data.height ≤ Journal.deltaDepth :=
    Source.forall_deltas_without fun delta => delta.data.height ≤ Journal.deltaDepth
  exact ⟨fun h => ⟨h.agent, hdeltas.mp h.deltas⟩, fun h => ⟨h.agent, hdeltas.mpr h.deltas⟩⟩

end

/-! ## 3. The result -/

namespace Journal

variable {sources : List Source} {missing : Nat → Nat → MessageList → Bool}

/-- Sources whose numbers are integers are read back as what they were. -/
theorem ofText_toText_of_integral (hp : ∀ source ∈ sources, source.Printable)
    (hi : ∀ source ∈ sources, source.Integral) :
    ofText (toText sources) =
      if ∀ source ∈ sources, source.Fits then .ok sources else .error .malformed := by
  have hsame : sources.map Source.reread = sources.map id :=
    List.map_congr_left fun source hmem => Source.reread_of_integral (hi source hmem)
  rw [ofText_toText hp, hsame, List.map_id]

/-- A text in which lists are missing is read as the one in which they are empty. -/
theorem ofText_without (hi : ∀ source ∈ sources, source.Integral) {text : String}
    (h : Reading.ofText text = (.ofJson (toJsonWithout missing sources), false)) :
    ofText text = ofText (toText (without missing sources)) := by
  have hintegral : (Json.ofList Source.toJson (without missing sources)).Integral :=
    Json.numbersAll_ofList (forall_mem_mapIdx fun _ source hmem =>
      have hsource := Source.integral_without (hi source hmem)
      Source.numbersAll_toJson Version.integral_toJson hsource.agent hsource.deltas)
  have hlist : Decoder.list Source.decoder 127 (.ofJson (toJsonWithout missing sources)) =
      Decoder.list Source.decoder 127
        (.ofJson (.ofList Source.toJson (without missing sources))) :=
    Decoder.list_mapIdx fun _ _ => Source.decoder_toJsonWithout
  rw [ofText, ofText, Decoder.ofText, Decoder.ofText, h, toText,
    Reading.ofText_toPrettyText hintegral.legible, Json.reread_of_integral hintegral]
  dsimp only
  rw [Decoder.textDepth, hlist]

theorem forall_fits_without :
    (∀ source ∈ without missing sources, source.Fits) ↔ ∀ source ∈ sources, source.Fits :=
  forall_mem_mapIdx_iff fun _ _ => Source.fits_without

/-- Let the numbers of all payloads be integers of 64 bits, and the times lie in years that a time
can be read in, from year 0 to year 9999 for example. Then the text of sources is read back as these
sources if it does not nest deeper than a text may, and is malformed otherwise.

Any lists of any of the messages may be missing in the text. Then it is read as the sources in which
these lists are empty, in the indented layout and in any other one. -/
theorem round_trip (hp : ∀ source ∈ sources, source.Printable)
    (hi : ∀ source ∈ sources, source.Integral) :
    (ofText (toText sources) =
      if (Json.ofList Source.toJson sources).height ≤ Decoder.textDepth then .ok sources
      else .error .malformed) ∧
    ∀ missing : Nat → Nat → MessageList → Bool,
      (ofText (toJsonWithout missing sources).toPrettyText =
        if (Json.ofList Source.toJson sources).height ≤ Decoder.textDepth then
          .ok (without missing sources)
        else .error .malformed) ∧
      ∀ text, Reading.ofText text = (.ofJson (toJsonWithout missing sources), false) →
        ofText text =
          if (Json.ofList Source.toJson sources).height ≤ Decoder.textDepth then
            .ok (without missing sources)
          else .error .malformed := by
  have hany (missing : Nat → Nat → MessageList → Bool) (text : String)
      (h : Reading.ofText text = (.ofJson (toJsonWithout missing sources), false)) :
      ofText text = if (Json.ofList Source.toJson sources).height ≤ Decoder.textDepth then
        .ok (without missing sources) else .error .malformed := by
    have hprintable : ∀ source ∈ without missing sources, source.Printable :=
      forall_mem_mapIdx fun _ source hmem => Source.printable_without (hp source hmem)
    have hintegral : ∀ source ∈ without missing sources, source.Integral :=
      forall_mem_mapIdx fun _ source hmem => Source.integral_without (hi source hmem)
    rw [ofText_without hi h, ofText_toText_of_integral hprintable hintegral]
    simp only [forall_fits_without, height_toJson_le]
  refine ⟨?_, fun missing => ⟨hany missing _ ?_, hany missing⟩⟩
  · rw [ofText_toText_of_integral hp hi]
    simp only [height_toJson_le]
  · have hform : (toJsonWithout missing sources).Integral :=
      Json.numbersAll_array.mpr (forall_mem_mapIdx fun _ source hmem =>
        Source.integral_toJsonWithout (hi source hmem))
    rw [Reading.ofText_toPrettyText hform.legible, Json.reread_of_integral hform]

end Journal

/-- A source at the last nanosecond of a leap second. Its message writes the largest version, and
its payload has the smallest and the largest integer, control characters and a character beyond the
first plane. -/
def exLeap : Source where
  id := .ofNat 1
  timestamp := ⟨1483228799, 1999999999, by decide, by decide⟩
  agent := ⟨.native "agent", .object [("", .null)]⟩
  messages := [{
    state := ⟨.ofNat 2, ⟨Nat.pow 2 64 - 1, by decide⟩⟩
    delta := ⟨.native "delta", .object [
      ("a\"\\", .array [.number (.integer (-9223372036854775808)), .string "\u0001\n\u007f"]),
      ("😀", .object [("", .number (.integer 18446744073709551615))])]⟩
    addLeases := [⟨"stream", "key", "orders"⟩, ⟨"", "", "é"⟩]
    removeLeases := []
    addTags := [⟨"colour", "red"⟩]
    removeTags := [⟨"colour", "blue"⟩] }]

/-- The source comes back, and if its lists of tags are missing, it comes back without tags. -/
theorem Journal.round_trip_leap :
    exLeap.Printable ∧ exLeap.Integral ∧
    (Json.ofList Source.toJson [exLeap]).height ≤ Decoder.textDepth ∧
    Journal.ofText (Journal.toText [exLeap]) = .ok [exLeap] ∧
    let missing (_ _ : Nat) (list : MessageList) : Bool := list = .addTags ∨ list = .removeTags
    Journal.ofText (Journal.toJsonWithout missing [exLeap]).toPrettyText =
      .ok [{ exLeap with messages := exLeap.messages.map fun message =>
        { message with addTags := [], removeTags := [] } }] := by
  have hsmallest : (Number.integer (-9223372036854775808)).Valid := ⟨by norm_num, by norm_num⟩
  have hlargest : (Number.integer 18446744073709551615).Valid := ⟨by norm_num, by norm_num⟩
  have hintegral : exLeap.Integral :=
    ⟨⟨trivial, trivial⟩, List.forall_mem_singleton.mpr
      ⟨⟨⟨hsmallest, _, rfl⟩, trivial, trivial⟩, ⟨⟨hlargest, _, rfl⟩, trivial⟩, trivial⟩⟩
  have hone (member : String × Json) : Json.SortedNames [member] := List.pairwise_singleton _ _
  have htwo : compare "a\"\\" "😀" = .lt := by decide +kernel
  have hagent : exLeap.agent.data.Sorted := ⟨hone _, trivial, trivial⟩
  have hdelta : ∀ message ∈ exLeap.messages, message.delta.data.Sorted :=
    List.forall_mem_singleton.mpr ⟨List.pairwise_pair.mpr htwo, ⟨trivial, trivial, trivial⟩,
      ⟨hone _, trivial, trivial⟩, trivial⟩
  have hprintable : exLeap.Printable :=
    ⟨by decide +kernel, ⟨hintegral.agent.legible, hagent⟩,
      fun message hmem => ⟨(hintegral.deltas message hmem).legible, hdelta message hmem⟩⟩
  have hfits : (Json.ofList Source.toJson [exLeap]).height ≤ Decoder.textDepth := by decide
  obtain ⟨hfull, hwithout⟩ := Journal.round_trip (List.forall_mem_singleton.mpr hprintable)
    (List.forall_mem_singleton.mpr hintegral)
  rw [if_pos hfits] at hfull
  refine ⟨hprintable, hintegral, hfits, hfull, ?_⟩
  intro missing
  have hmissing := (hwithout missing).1
  rw [if_pos hfits] at hmissing
  exact hmissing

end LeaseLog
