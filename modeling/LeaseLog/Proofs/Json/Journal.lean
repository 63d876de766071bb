import LeaseLog.Journal
import LeaseLog.Proofs.Json.Records
import LeaseLog.Proofs.Text.Ident
import LeaseLog.Proofs.Text.Instant

/-!
# Journals read back

A journal holds payloads inside of sources, five levels below its own start. It is read under the
budget for nesting that a payload is read under when it stands alone, so a payload that nests almost
as deep as that is written and cannot be read again.

Results:
1. `Source.decoder_toJson`: when the form of a source decodes as the source.
2. `Journal.ofText_toText`: when the text of sources is read back, and as what.
3. `Journal.ofText_spec`: whatever is read from a journal can be written and read again.
-/

namespace LeaseLog

/-! ## Definitions -/

/-- How deep the payload of a delta may nest in a journal. -/
def Journal.deltaDepth : Nat := 122

/-- How deep the payload of a signature may nest in a journal. -/
def Journal.agentDepth : Nat := 124

/-- The envelope of a payload that can be printed, with its members in order. -/
structure Envelope.Printable (envelope : Envelope) : Prop where
  legible : envelope.data.Legible
  sorted : envelope.data.Sorted

/-- A source whose payloads and time can be printed. -/
structure Source.Printable (source : Source) : Prop where
  year : Instant.isYear source.timestamp.year = true
  agent : source.agent.Printable
  deltas : ∀ message ∈ source.messages, message.delta.Printable

/-- A source whose payloads do not nest too deep for a journal. -/
structure Source.Fits (source : Source) : Prop where
  agent : source.agent.data.height ≤ Journal.agentDepth
  deltas : ∀ message ∈ source.messages, message.delta.data.height ≤ Journal.deltaDepth

instance : DecidablePred Source.Fits := fun source =>
  decidable_of_iff (source.agent.data.height ≤ Journal.agentDepth ∧
      ∀ message ∈ source.messages, message.delta.data.height ≤ Journal.deltaDepth)
    ⟨fun h => ⟨h.1, h.2⟩, fun h => ⟨h.agent, h.deltas⟩⟩

/-- A source of whose payloads all numbers are integers. -/
structure Source.Integral (source : Source) : Prop where
  agent : source.agent.data.Integral
  deltas : ∀ message ∈ source.messages, message.delta.data.Integral

/-- What an envelope is read as once it was printed. -/
def Envelope.reread (envelope : Envelope) : Envelope :=
  { envelope with data := envelope.data.reread }

/-- What a message is read as once it was printed. -/
def Message.reread (message : Message) : Message :=
  { message with delta := message.delta.reread }

/-- What a source is read as once it was printed. -/
def Source.reread (source : Source) : Source :=
  { source with agent := source.agent.reread, messages := source.messages.map Message.reread }

/-! ## 1. Forms -/

section

variable {depth : Nat}

@[simp] theorem Ident.decoder_toJson (id : Ident) :
    Ident.decoder depth (.ofJson id.toJson) = .ok id := by
  simp [Ident.decoder, Ident.toJson, Reading.ofJson, Decoder.filterMap, Decoder.text]

@[simp] theorem Version.decoder_toJson (version : Version) :
    Version.decoder depth (.ofJson version.toJson) = .ok version := by
  have hlt : version.toNat < Nat.pow 2 64 := version.isLt
  have hof : Version.ofNat? version.toNat = some version := dif_pos hlt
  have hread : Decoder.natBelow (Nat.pow 2 64) depth (.ofJson version.toJson) = .ok version.toNat :=
    if_pos hlt
  simp only [Version.decoder, Decoder.filterMap, hread, hof]

theorem Instant.decoder_toJson {instant : Instant} (h : Instant.isYear instant.year = true) :
    Instant.decoder depth (.ofJson instant.toJson) = .ok instant := by
  simp [Instant.decoder, Instant.toJson, Reading.ofJson, Decoder.filterMap, Decoder.text,
    Instant.ofText?_toText h]

theorem Decoder.text_string (text : String) :
    Decoder.text depth (.ofJson (.string text)) = .ok text :=
  rfl

@[simp] theorem Pointer.decoder_toJson (pointer : Pointer) :
    Pointer.decoder (depth + 1) (.ofJson pointer.toJson) = .ok pointer := by
  rw [Pointer.decoder, Decoder.map, Pointer.toJson, Decoder.record_members rfl (by decide)]
  simp [Decoder.takeItems, Decoder.required, Except.map]

@[simp] theorem Lease.decoder_toJson (lease : Lease) :
    Lease.decoder (depth + 1) (.ofJson lease.toJson) = .ok lease := by
  rw [Lease.decoder, Decoder.map, Lease.toJson, Decoder.record_members rfl (by decide)]
  simp [Decoder.takeItems, Decoder.required, Decoder.text_string, Except.map]

@[simp] theorem Tag.decoder_toJson (tag : Tag) :
    Tag.decoder (depth + 1) (.ofJson tag.toJson) = .ok tag := by
  rw [Tag.decoder, Decoder.map, Tag.toJson, Decoder.record_members rfl (by decide)]
  simp [Decoder.takeItems, Decoder.required, Decoder.text_string, Except.map]

@[simp] theorem DataType.decoder_toJson (dataType : DataType) :
    DataType.decoder (depth + 1) (.ofJson dataType.toJson) = .ok dataType := by
  rw [DataType.decoder, Decoder.map, DataType.toJson, Decoder.record_members rfl (by decide)]
  simp [Decoder.takeItems, Decoder.required, Decoder.text_string, Except.map]

/-- The form of an envelope decodes as the envelope, unless the payload nests too deep. -/
theorem Envelope.decoder_toJson {envelope : Envelope} (h : envelope.data.Sorted) :
    Envelope.decoder (depth + 2) (.ofJson envelope.toJson) =
      if envelope.data.height ≤ depth + 1 then .ok envelope else .error .malformed := by
  rw [Envelope.decoder, Decoder.map, Envelope.toJson, Decoder.record_members rfl (by decide)]
  by_cases hfits : envelope.data.height ≤ depth + 1 <;>
    simp [Decoder.takeItems, Decoder.required, Decoder.payload_ofJson h, hfits, Except.map]

/-- An array of values whose forms decode, decodes as the values. -/
theorem Decoder.list_of_decodes {α : Type} {decode : Decoder α} {write : α → Json}
    (h : ∀ value, decode depth (.ofJson (write value)) = .ok value) (values : List α) :
    Decoder.list decode (depth + 1) (.ofJson (.ofList write values)) = .ok values := by
  have hlist := @Decoder.list_ofList depth α decode write (fun _ => True) _ values
    (fun value _ => by rw [h, if_pos trivial])
  rwa [if_pos fun _ _ => trivial] at hlist

/-- The form of a message decodes as the message, unless the payload nests too deep. -/
theorem Message.decoder_toJson {message : Message} (h : message.delta.data.Sorted) :
    Message.decoder (depth + 3) (.ofJson message.toJson) =
      if message.delta.data.height ≤ depth + 1 then .ok message else .error .malformed := by
  have hlease := fun values =>
    @Decoder.list_of_decodes (depth + 1) _ _ _ Lease.decoder_toJson values
  have htag := fun values => @Decoder.list_of_decodes (depth + 1) _ _ _ Tag.decoder_toJson values
  rw [Message.decoder, Decoder.map, Message.toJson, Decoder.record_members rfl (by decide)]
  by_cases hfits : message.delta.data.height ≤ depth + 1 <;>
    simp [Decoder.takeItems, Decoder.required, Decoder.withDefault, Envelope.decoder_toJson h,
      hlease, htag, hfits, Except.map]

/-- The form of a source decodes as the source, unless a payload nests too deep. -/
theorem Source.decoder_toJson {source : Source} (h : source.Printable) :
    Source.decoder 126 (.ofJson source.toJson) =
      if source.Fits then .ok source else .error .malformed := by
  have hagent : Envelope.decoder 125 (.ofJson source.agent.toJson) =
      if source.agent.data.height ≤ Journal.agentDepth then .ok source.agent
      else .error .malformed := Envelope.decoder_toJson h.agent.sorted
  have hmessages : Decoder.list Message.decoder 125
      (.ofJson (.ofList Message.toJson source.messages)) =
      if ∀ message ∈ source.messages, message.delta.data.height ≤ Journal.deltaDepth then
        .ok source.messages
      else .error .malformed :=
    Decoder.list_ofList fun message hmem => Message.decoder_toJson (h.deltas message hmem).sorted
  rw [Source.decoder, Decoder.map, Source.toJson, Decoder.record_members rfl (by decide)]
  simp only [List.map_cons, List.map_nil]
  -- fields are decoded in their order, so a signature that is refused hides the messages
  by_cases hagentFits : source.agent.data.height ≤ Journal.agentDepth
  · by_cases hfits : ∀ message ∈ source.messages, message.delta.data.height ≤ Journal.deltaDepth
    · rw [if_pos ⟨hagentFits, hfits⟩]
      simp only [Decoder.takeItems, Decoder.required, Ident.decoder_toJson,
        Instant.decoder_toJson h.year, hagent, hmessages, if_pos hagentFits, if_pos hfits,
        Except.map]
    · rw [if_neg fun h => hfits h.deltas]
      simp only [Decoder.takeItems, Decoder.required, Ident.decoder_toJson,
        Instant.decoder_toJson h.year, hagent, hmessages, if_pos hagentFits, if_neg hfits,
        Except.map]
  · rw [if_neg fun h => hagentFits h.agent]
    simp only [Decoder.takeItems, Decoder.required, Ident.decoder_toJson,
      Instant.decoder_toJson h.year, hagent, if_neg hagentFits, Except.map]

end

/-! ### Forms printed and read -/

theorem Version.legible_toJson (version : Version) : version.toJson.Legible := by
  have hlt : version.toNat < Nat.pow 2 64 := version.isLt
  norm_num at hlt
  refine ⟨?_, ?_⟩
  · norm_num
  · norm_num
    omega

theorem Version.reread_toJson (version : Version) : version.toJson.reread = version.toJson := by
  rw [Version.toJson, Json.nat, Json.reread, Number.reread_integer version.legible_toJson]

theorem Json.reread_ofList {α : Type} {write : α → Json} {f : α → α}
    (h : ∀ value, (write value).reread = write (f value)) (values : List α) :
    (Json.ofList write values).reread = .ofList write (values.map f) := by
  rw [Json.ofList, Json.reread_array, Json.ofList, List.map_map, List.map_map]
  exact congrArg Json.array (List.map_congr_left fun value _ => h value)

theorem Json.reread_ofList_self {α : Type} {write : α → Json}
    (h : ∀ value, (write value).reread = write value) (values : List α) :
    (Json.ofList write values).reread = .ofList write values := by
  rw [Json.reread_ofList (f := id) h, List.map_id]

theorem Json.numbersAll_ofList {p : Number → Prop} {α : Type} {write : α → Json} {values : List α}
    (h : ∀ value ∈ values, (write value).NumbersAll p) : (Json.ofList write values).NumbersAll p :=
  Json.numbersAll_array.mpr (List.forall_mem_map.mpr h)

theorem Pointer.reread_toJson (pointer : Pointer) : pointer.toJson.reread = pointer.toJson := by
  simp only [Pointer.toJson, Ident.toJson, Json.reread, Json.rereadMembers, Version.reread_toJson]

theorem Message.reread_toJson (message : Message) :
    message.toJson.reread = message.reread.toJson := by
  have hleases := @Json.reread_ofList_self _ Lease.toJson fun _ => rfl
  have htags := @Json.reread_ofList_self _ Tag.toJson fun _ => rfl
  have hdelta : message.delta.toJson.reread = message.delta.reread.toJson := rfl
  simp only [Message.toJson, Json.reread, Json.rereadMembers, Pointer.reread_toJson, hdelta,
    hleases, htags, Message.reread]

theorem Source.reread_toJson (source : Source) : source.toJson.reread = source.reread.toJson := by
  have hagent : source.agent.toJson.reread = source.agent.reread.toJson := rfl
  simp only [Source.toJson, Ident.toJson, Instant.toJson, Json.reread, Json.rereadMembers, hagent,
    Json.reread_ofList Message.reread_toJson, Source.reread]

theorem Envelope.numbersAll_toJson {p : Number → Prop} {envelope : Envelope}
    (h : envelope.data.NumbersAll p) : envelope.toJson.NumbersAll p :=
  ⟨⟨trivial, trivial, trivial⟩, h, trivial⟩

/-- The numbers of a message are its version and those of its payload. -/
theorem Message.numbersAll_toJson {p : Number → Prop} {message : Message}
    (hversion : message.state.version.toJson.NumbersAll p)
    (h : message.delta.data.NumbersAll p) : message.toJson.NumbersAll p := by
  have hleases : ∀ leases, (Json.ofList Lease.toJson leases).NumbersAll p := fun _ =>
    Json.numbersAll_ofList fun _ _ => ⟨trivial, trivial, trivial, trivial⟩
  have htags : ∀ tags, (Json.ofList Tag.toJson tags).NumbersAll p := fun _ =>
    Json.numbersAll_ofList fun _ _ => ⟨trivial, trivial, trivial⟩
  exact ⟨⟨trivial, hversion, trivial⟩, Envelope.numbersAll_toJson h, hleases _, hleases _, htags _,
    htags _, trivial⟩

theorem Source.numbersAll_toJson {p : Number → Prop} {source : Source}
    (hversion : ∀ version : Version, version.toJson.NumbersAll p)
    (hagent : source.agent.data.NumbersAll p)
    (hdeltas : ∀ message ∈ source.messages, message.delta.data.NumbersAll p) :
    source.toJson.NumbersAll p :=
  ⟨trivial, trivial, Envelope.numbersAll_toJson hagent,
    Json.numbersAll_ofList fun message hmem =>
      Message.numbersAll_toJson (hversion _) (hdeltas message hmem), trivial⟩

theorem Source.legible_toJson {source : Source} (h : source.Printable) :
    source.toJson.Legible :=
  Source.numbersAll_toJson Version.legible_toJson h.agent.legible fun message hmem =>
    (h.deltas message hmem).legible

/-! ### Sources printed and read -/

theorem Envelope.Printable.reread {envelope : Envelope} (h : envelope.Printable) :
    envelope.reread.Printable :=
  ⟨Json.legible_reread h.legible, Json.sorted_reread h.sorted⟩

theorem Source.Printable.reread {source : Source} (h : source.Printable) :
    source.reread.Printable :=
  ⟨h.year, h.agent.reread,
    List.forall_mem_map.mpr fun message hmem => (h.deltas message hmem).reread⟩

theorem Source.fits_reread {source : Source} : source.reread.Fits ↔ source.Fits := by
  have hdeltas : (∀ message ∈ source.messages.map Message.reread,
      message.delta.data.height ≤ Journal.deltaDepth) ↔
      ∀ message ∈ source.messages, message.delta.data.height ≤ Journal.deltaDepth := by
    rw [List.forall_mem_map]
    simp [Message.reread, Envelope.reread]
  have hagent : source.reread.agent.data.height = source.agent.data.height :=
    Json.height_reread _
  exact ⟨fun h => ⟨hagent ▸ h.agent, hdeltas.mp h.deltas⟩,
    fun h => ⟨hagent ▸ h.agent, hdeltas.mpr h.deltas⟩⟩

theorem Envelope.reread_of_integral {envelope : Envelope} (h : envelope.data.Integral) :
    envelope.reread = envelope := by
  rw [Envelope.reread, Json.reread_of_integral h]

/-- Integers are read as what they were. -/
theorem Source.reread_of_integral {source : Source} (h : source.Integral) :
    source.reread = source := by
  have hmessages : source.messages.map Message.reread = source.messages := by
    conv_rhs => rw [← List.map_id source.messages]
    refine List.map_congr_left fun message hm => ?_
    rw [Message.reread, Envelope.reread_of_integral (h.deltas message hm)]
    rfl
  rw [Source.reread, Envelope.reread_of_integral h.agent, hmessages]

/-! ## 2. Journals -/

namespace Journal

/-- The text of sources is read back, up to what printing makes of floating point numbers, if all
payloads fit. If one nests too deep, the whole text cannot be read. -/
theorem ofText_toText {sources : List Source} (h : ∀ source ∈ sources, source.Printable) :
    ofText (toText sources) =
      if ∀ source ∈ sources, source.Fits then .ok (sources.map Source.reread)
      else .error .malformed := by
  have hlegible : (Json.ofList Source.toJson sources).Legible :=
    Json.numbersAll_ofList fun source hmem => Source.legible_toJson (h source hmem)
  have hlist := @Decoder.list_ofList 126 _ Source.decoder Source.toJson Source.Fits _
    (sources.map Source.reread) (List.forall_mem_map.mpr fun source hmem =>
      Source.decoder_toJson (h source hmem).reread)
  rw [ofText, toText, Decoder.ofText, Reading.ofText_toPrettyText hlegible,
    Json.reread_ofList Source.reread_toJson]
  dsimp only
  rw [Json.ofList, Decoder.textDepth, hlist]
  simp only [List.forall_mem_map, Source.fits_reread]
  by_cases hfits : ∀ source ∈ sources, source.Fits
  · rw [if_pos hfits]
    rfl
  · rw [if_neg hfits]

end Journal

/-! ## 3. What is read -/

theorem Decoder.required_given {α : Type} {name : String} {decode : Decoder α} {depth : Nat}
    {value : α} (h : (Decoder.required name decode).Given depth value) :
    ∃ reading : Reading, reading.Legible ∧ decode depth reading = .ok value := by
  rcases h with h | h | h
  · exact h
  · cases h
  · cases h

section

variable {depth : Nat} {reading : Reading}

theorem Envelope.decoder_spec {envelope : Envelope} (hreading : reading.Legible)
    (h : Envelope.decoder (depth + 1) reading = .ok envelope) :
    envelope.data.Storable depth := by
  obtain ⟨values, hvalues, rfl⟩ := Decoder.ok_of_map h
  obtain ⟨below, hbelow, -, hdata, -⟩ := Decoder.record_given hreading hvalues
  obtain rfl := Nat.succ.inj hbelow
  obtain ⟨part, hpart, hpayload⟩ := Decoder.required_given hdata
  exact Decoder.payload_spec hpart hpayload

theorem Message.decoder_spec {message : Message} (hreading : reading.Legible)
    (h : Message.decoder (depth + 2) reading = .ok message) :
    message.delta.data.Storable depth := by
  obtain ⟨values, hvalues, rfl⟩ := Decoder.ok_of_map h
  obtain ⟨below, hbelow, -, hdelta, -⟩ := Decoder.record_given hreading hvalues
  obtain rfl := Nat.succ.inj hbelow
  obtain ⟨part, hpart, henvelope⟩ := Decoder.required_given hdelta
  exact Envelope.decoder_spec hpart henvelope

theorem Instant.decoder_spec {instant : Instant} (h : Instant.decoder depth reading = .ok instant) :
    Instant.isYear instant.year = true := by
  rw [Instant.decoder, Decoder.filterMap] at h
  split at h
  · cases h
  · split at h
    · rename_i found hfound
      cases h
      exact Instant.isYear_of_ofText? hfound
    · cases h

theorem Source.decoder_spec {source : Source} (hreading : reading.Legible)
    (h : Source.decoder 126 reading = .ok source) : source.Printable ∧ source.Fits := by
  obtain ⟨⟨id, timestamp, agent, (messages : List Message), rest⟩, hvalues, rfl⟩ :=
    Decoder.ok_of_map h
  obtain ⟨below, hbelow, -, htimestamp, hagent, hmessages, -⟩ :=
    Decoder.record_given hreading hvalues
  obtain rfl := Nat.succ.inj hbelow
  obtain ⟨time, -, hinstant⟩ := Decoder.required_given htimestamp
  obtain ⟨part, hpart, henvelope⟩ := Decoder.required_given hagent
  obtain ⟨list, hlist, hitems⟩ := Decoder.required_given hmessages
  obtain ⟨inner, hinner, hitems⟩ := Decoder.list_given hlist hitems
  obtain rfl := Nat.succ.inj hinner
  have hagent := Envelope.decoder_spec hpart henvelope
  have hdeltas : ∀ message ∈ messages, message.delta.data.Storable Journal.deltaDepth := by
    intro message hmem
    obtain ⟨item, hitem, hdecode⟩ := hitems message hmem
    exact Message.decoder_spec hitem hdecode
  exact ⟨⟨Instant.decoder_spec hinstant, ⟨hagent.legible, hagent.sorted⟩,
      fun message hmem => ⟨(hdeltas message hmem).legible, (hdeltas message hmem).sorted⟩⟩,
    ⟨hagent.height_le, fun message hmem => (hdeltas message hmem).height_le⟩⟩

end

namespace Journal

theorem ofText_spec {text : String} {sources : List Source} (h : ofText text = .ok sources) :
    ∀ source ∈ sources, source.Printable ∧ source.Fits := by
  rw [ofText, Decoder.ofText] at h
  dsimp only at h
  split at h
  · cases h
  · rename_i found hfound
    split at h
    · cases h
    · cases h
      obtain ⟨below, hbelow, hsources⟩ :=
        Decoder.list_given (Reading.ofText_legible text) hfound
      obtain rfl : below = 126 := by
        unfold Decoder.textDepth at hbelow
        omega
      intro source hmem
      obtain ⟨item, hitem, hdecode⟩ := hsources source hmem
      exact Source.decoder_spec hitem hdecode

end Journal

/-- Whatever the text of a payload is read as can be stored as a payload. -/
theorem Decoder.ofText_payload_spec {text : String} {value : Json}
    (h : Decoder.ofText Decoder.payload text = .ok value) :
    value.Storable Decoder.textDepth := by
  rw [Decoder.ofText] at h
  dsimp only at h
  split at h
  · cases h
  · rename_i found hfound
    split at h
    · cases h
    · cases h
      exact Decoder.payload_spec (Reading.ofText_legible text) hfound

end LeaseLog
