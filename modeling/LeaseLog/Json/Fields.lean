import LeaseLog.Json.Forms

/-!
# Reading JSON values by hand

Values whose shape is looser than a record: members that may be missing or null, and types that are
given by their name alone.
-/

namespace LeaseLog

namespace Json

/-- A member of an object; a null member counts as missing. -/
def member? (value : Json) (name : String) : Option Json :=
  match value with
  | .object members =>
    match members.find? fun member => member.1 = name with
    | some (_, .null) | none => none
    | some (_, found) => some found
  | _ => none

/-- A value as its decoder reads it. -/
def as? {α : Type} (decoder : Decoder α) (value : Json) : Option α :=
  (Decoder.ofJson decoder value).toOption

/-- The text of a string. -/
def text? : Json → Option String
  | .string text => some text
  | _ => none

/-- A truth value. -/
def bool? : Json → Option Bool
  | .bool value => some value
  | _ => none

/-- A natural number. -/
def nat? : Json → Option Nat
  | .number (.integer (.ofNat value)) => some value
  | _ => none

/-- The items of an array. -/
def list? {α : Type} (read : Json → Option α) : Json → Option (List α)
  | .array items => items.mapM read
  | _ => none

/-- Reads a member that may be missing. -/
def optional? {α : Type} (value : Json) (name : String) (read : Json → Option α) :
    Option (Option α) :=
  match value.member? name with
  | none => some none
  | some found => (read found).map some

/-- Reads a list that may be missing. -/
def listMember? {α : Type} (value : Json) (name : String) (read : Json → Option α) :
    Option (List α) :=
  match value.member? name with
  | none => some []
  | some found => list? read found

end Json

/-- A type by its two parts, or by its name on the platform that payloads belong to otherwise. -/
def DataType.ofJson? : Json → Option DataType
  | .string name => some (.native name)
  | value => value.as? decoder

/-- A delta by its type, its payload, its message key, and why it cannot be written out if it fails
to be. -/
def Delta.ofJson? (value : Json) : Option Delta := do
  let dataType ← DataType.ofJson? (← value.member? "type")
  let messageKey ← value.optional? "key" Json.text?
  match value.member? "fail" with
  | some report => some ⟨dataType, .error (.ofText (← report.text?)), messageKey⟩
  | none => some ⟨dataType, .ok ((value.member? "data").getD .null), messageKey⟩

end LeaseLog
