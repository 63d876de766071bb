import LeaseLog.Json.Reading
import Std.Data.ExtTreeMap

/-!
# Decoding

A decoder turns a reading into a value of a domain type, or reports the first fault in the order of
the text. Records follow one rule (`record`): they are objects whose members may come in any order,
or lists of their fields in order; unknown members are passed over, a member that comes twice is
refused, and a field that is absent takes its default or is reported.

Arrays and objects may nest as deep as the budget that a decoder is given. Members that are passed
over do not count.
-/

namespace LeaseLog

/-- Why a text does not stand for a value. -/
inductive DecodeError
  | missingField (name : String)
  | duplicateField (name : String)
  /-- The text is not well formed, or a value is of the wrong kind or out of range. -/
  | malformed
deriving DecidableEq, Repr

/-- The wording of a decoding error. -/
def DecodeError.message : DecodeError → String
  | .missingField name => "missing field `" ++ name ++ "`"
  | .duplicateField name => "duplicate field `" ++ name ++ "`"
  | .malformed => "malformed text"

/-- Reads a value out of a reading, with a budget for nesting. -/
abbrev Decoder (α : Type) := Nat → Reading → Except DecodeError α

namespace Decoder

/-- How deep the arrays and objects of a text may nest. -/
def textDepth : Nat := 127

/-- Decodes a whole text. -/
def ofText {α : Type} (decode : Decoder α) (text : String) : Except DecodeError α :=
  let (reading, trailing) := Reading.ofText text
  match decode textDepth reading with
  | .error cause => .error cause
  | .ok value => if trailing then .error .malformed else .ok value

/-- Decodes a value, however deep it nests. -/
def ofJson {α : Type} (decode : Decoder α) (value : Json) : Except DecodeError α :=
  decode value.height (Reading.ofJson value)

/-- A decoder followed by a partial function. -/
def filterMap {α β : Type} (decode : Decoder α) (f : α → Option β) : Decoder β :=
  fun depth reading =>
    match decode depth reading with
    | .error cause => .error cause
    | .ok value =>
      match f value with
      | some result => .ok result
      | none => .error .malformed

/-- A decoder followed by a function. -/
def map {α β : Type} (decode : Decoder α) (f : α → β) : Decoder β :=
  fun depth reading => (decode depth reading).map f

/-! ## Plain values -/

/-- A string. -/
def text : Decoder String := fun _ reading =>
  match reading with
  | .string (some value) => .ok value
  | _ => .error .malformed

/-- A truth value. -/
def bool : Decoder Bool := fun _ reading =>
  match reading with
  | .bool value => .ok value
  | _ => .error .malformed

/-- A natural number below a bound, written as an integer. -/
def natBelow (bound : Nat) : Decoder Nat := fun _ reading =>
  match reading with
  | .number (some (.integer (.ofNat value))) =>
    if value < bound then .ok value else .error .malformed
  | _ => .error .malformed

/-- Null, or a value. -/
def nullable {α : Type} (decode : Decoder α) : Decoder (Option α) := fun depth reading =>
  match reading with
  | .null => .ok none
  | reading => (decode depth reading).map some

/-! ## Lists, tables and payloads -/

/-- Decodes readings one after another. -/
def items {α : Type} (decode : Decoder α) (depth : Nat) :
    List Reading → Except DecodeError (List α)
  | [] => .ok []
  | reading :: readings =>
    match decode depth reading with
    | .error cause => .error cause
    | .ok value => (items decode depth readings).map (value :: ·)

/-- A list of values. -/
def list {α : Type} (decode : Decoder α) : Decoder (List α) := fun depth reading =>
  match depth, reading with
  | depth + 1, .array readings closed =>
    match items decode depth readings with
    | .error cause => .error cause
    | .ok values => if closed then .ok values else .error .malformed
  | _, _ => .error .malformed

/-- Decodes members one after another into a table. -/
def entries {α : Type} (decode : Decoder α) (depth : Nat) :
    List (Option String × Reading) → Std.ExtTreeMap String α →
      Except DecodeError (Std.ExtTreeMap String α)
  | [], table => .ok table
  | (none, _) :: _, _ => .error .malformed
  | (some name, reading) :: members, table =>
    match decode depth reading with
    | .error cause => .error cause
    | .ok value => entries decode depth members (table.insert name value)

/-- A table of named values; of several members with one name the last one counts. -/
def table {α : Type} (decode : Decoder α) : Decoder (Std.ExtTreeMap String α) :=
  fun depth reading =>
    match depth, reading with
    | depth + 1, .object members closed =>
      match entries decode depth members ∅ with
      | .error cause => .error cause
      | .ok values => if closed then .ok values else .error .malformed
    | _, _ => .error .malformed

mutual

/-- A payload of any shape. Members are sorted by name, and of several members with one name the
last one counts. -/
def payload : (depth : Nat) → Reading → Except DecodeError Json
  | _, .null => .ok .null
  | _, .bool value => .ok (.bool value)
  | _, .number (some value) => .ok (.number value)
  | _, .string (some value) => .ok (.string value)
  | depth + 1, .array readings closed =>
    match payloadItems depth readings with
    | .error cause => .error cause
    | .ok values => if closed then .ok (.array values) else .error .malformed
  | depth + 1, .object members closed =>
    match payloadMembers depth members [] with
    | .error cause => .error cause
    | .ok values => if closed then .ok (.object values) else .error .malformed
  | _, .number none | _, .string none | _, .broken | 0, .array _ _ | 0, .object _ _ =>
    .error .malformed

/-- The items of a payload. -/
def payloadItems (depth : Nat) : List Reading → Except DecodeError (List Json)
  | [] => .ok []
  | reading :: readings =>
    match payload depth reading with
    | .error cause => .error cause
    | .ok value => (payloadItems depth readings).map (value :: ·)

/-- The members of a payload, behind those read already. -/
def payloadMembers (depth : Nat) :
    List (Option String × Reading) → List (String × Json) →
      Except DecodeError (List (String × Json))
  | [], sorted => .ok sorted
  | (none, _) :: _, _ => .error .malformed
  | (some name, reading) :: members, sorted =>
    match payload depth reading with
    | .error cause => .error cause
    | .ok value => payloadMembers depth members (Json.insertMember name value sorted)

end

/-! ## Records -/

/-- A field of a record. -/
structure Field where
  name : String
  Value : Type
  decode : Decoder Value
  /-- What the field is when no member has its name. -/
  whenMissing : Option Value
  /-- What the field is when a list of fields ends before it. -/
  whenShort : Option Value

/-- A field that has to be there. -/
def required {α : Type} (name : String) (decode : Decoder α) : Field :=
  ⟨name, α, decode, none, none⟩

/-- A field with a default. -/
def withDefault {α : Type} (name : String) (decode : Decoder α) (default : α) : Field :=
  ⟨name, α, decode, some default, some default⟩

/-- A field that is null when no member has its name, but has its place in a list of fields. -/
def orNull {α : Type} (name : String) (decode : Decoder α) : Field :=
  ⟨name, Option α, nullable decode, some none, none⟩

/-- The values of fields. -/
abbrev Values : List Field → Type
  | [] => Unit
  | field :: fields => field.Value × Values fields

/-- The values of fields as far as they were met. -/
abbrev Slots : List Field → Type
  | [] => Unit
  | field :: fields => Option field.Value × Slots fields

/-- No field met yet. -/
def noSlots : (fields : List Field) → Slots fields
  | [] => ()
  | _ :: fields => (none, noSlots fields)

/-- Takes a member into the slot of its name; `none` if no field has that name. -/
def takeMember (depth : Nat) (name : String) (reading : Reading) :
    (fields : List Field) → Slots fields → Option (Except DecodeError (Slots fields))
  | [], _ => none
  | field :: fields, (slot, slots) =>
    if field.name = name then
      match slot with
      | some _ => some (.error (.duplicateField name))
      | none => some ((field.decode depth reading).map fun value => (some value, slots))
    else
      match takeMember depth name reading fields slots with
      | none => none
      | some taken => some (taken.map fun slots => (slot, slots))

/-- Takes members one after another. Unknown names are passed over, or refused. -/
def takeMembers (refuseUnknown : Bool) (fields : List Field) (depth : Nat) :
    List (Option String × Reading) → Slots fields → Except DecodeError (Slots fields)
  | [], slots => .ok slots
  | (none, _) :: _, _ => .error .malformed
  | (some name, reading) :: members, slots =>
    match takeMember depth name reading fields slots with
    | some (.error cause) => .error cause
    | some (.ok slots) => takeMembers refuseUnknown fields depth members slots
    | none =>
      if refuseUnknown || !reading.isComplete then .error .malformed
      else takeMembers refuseUnknown fields depth members slots

/-- The values of all fields, with defaults for those that were not met. -/
def fillMissing : (fields : List Field) → Slots fields → Except DecodeError (Values fields)
  | [], _ => .ok ()
  | field :: fields, (slot, slots) =>
    match slot.or field.whenMissing with
    | none => .error (.missingField field.name)
    | some value => (fillMissing fields slots).map fun values => (value, values)

/-- Takes fields by their place in a list. -/
def takeItems (depth : Nat) :
    (fields : List Field) → List Reading → Except DecodeError (Values fields)
  | [], [] => .ok ()
  | [], _ :: _ => .error .malformed
  | field :: fields, [] =>
    match field.whenShort with
    | none => .error .malformed
    | some value => (takeItems depth fields []).map fun values => (value, values)
  | field :: fields, reading :: readings =>
    match field.decode depth reading with
    | .error cause => .error cause
    | .ok value => (takeItems depth fields readings).map fun values => (value, values)

/-- The values of a record's fields. -/
def recordWith (refuseUnknown : Bool) (fields : List Field) : Decoder (Values fields) :=
  fun depth reading =>
    match depth, reading with
    | depth + 1, .object members closed =>
      match takeMembers refuseUnknown fields depth members (noSlots fields) with
      | .error cause => .error cause
      | .ok slots => if closed then fillMissing fields slots else .error .malformed
    | depth + 1, .array readings closed =>
      match takeItems depth fields readings with
      | .error cause => .error cause
      | .ok values => if closed then .ok values else .error .malformed
    | _, _ => .error .malformed

/-- The values of a record's fields; unknown members are passed over. -/
def record (fields : List Field) : Decoder (Values fields) := recordWith false fields

end Decoder

end LeaseLog
