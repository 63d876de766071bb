import LeaseLog.Json.Decoder
import LeaseLog.Report

/-!
# Envelopes

Payloads are stored untyped, next to a header that names their type. A reader may check the header
before it decodes the payload.
-/

namespace LeaseLog

/-- The type of a payload: a name on a platform. -/
structure DataType where
  platform : String
  name : String
deriving DecidableEq, Repr, Inhabited

namespace DataType

/-- Platform first, then name. -/
def order : DataType → DataType → Ordering := compareLex (compareOn platform) (compareOn name)

instance : Ord DataType := ⟨order⟩

instance : Std.TransOrd DataType :=
  inferInstanceAs (Std.TransCmp (compareLex (compareOn platform) (compareOn name)))

instance : Std.LawfulEqOrd DataType where
  compare_self :=
    (inferInstance : Std.ReflCmp
      (compareLex (compareOn platform) (compareOn name))).compare_self
  eq_of_compare {a b} same := by
    change order a b = .eq at same
    simp only [order, compareLex, compareOn, Ordering.then_eq_eq,
      Std.LawfulEqCmp.compare_eq_iff_eq] at same
    cases a; cases b; simp_all

/-- A type on the platform that payloads belong to unless they say otherwise. -/
def native (name : String) : DataType := ⟨"rust", name⟩

/-- The form `platform:name`. -/
def toText (dataType : DataType) : String := dataType.platform ++ ":" ++ dataType.name

end DataType

/-- A payload and the type that its header names. -/
structure Envelope where
  dataType : DataType
  data : Json
deriving DecidableEq, Repr, Inhabited

/-- Why a payload cannot be packed or unpacked. -/
inductive EnvelopeError
  /-- The payload has no JSON form. -/
  | serialization (report : Report)
  /-- The payload does not have the shape that the reader asks for. -/
  | shape (cause : DecodeError)
  /-- The header names another type than the reader asks for. -/
  | typeMismatch (expected found : DataType)
deriving DecidableEq, Repr

/-- The wording of an envelope error. -/
def EnvelopeError.message : EnvelopeError → String
  | .serialization report => "payload serialization failed: " ++ report.toText
  | .shape cause => "payload serialization failed: " ++ cause.message
  | .typeMismatch expected found =>
    "type mismatch: expected " ++ expected.toText ++ ", found " ++ found.toText

/-- Something that is to be recorded in a stream: a type, a payload or the reason why it has none,
and a key under which the stream takes it at most once. -/
structure Delta where
  dataType : DataType
  payload : Except Report Json
  messageKey : Option String

namespace Envelope

/-- Packs the payload of a delta. -/
def pack (delta : Delta) : Except EnvelopeError Envelope :=
  match delta.payload with
  | .ok data => .ok ⟨delta.dataType, data⟩
  | .error report => .error (.serialization report)

/-- Decodes the payload. -/
def unpack {α : Type} (envelope : Envelope) (decode : Decoder α) : Except EnvelopeError α :=
  match Decoder.ofJson decode envelope.data with
  | .ok value => .ok value
  | .error cause => .error (.shape cause)

/-- Decodes the payload if the header names the expected type. -/
def unpackExpecting {α : Type} (envelope : Envelope) (expected : DataType) (decode : Decoder α) :
    Except EnvelopeError α :=
  if envelope.dataType = expected then envelope.unpack decode
  else .error (.typeMismatch expected envelope.dataType)

end Envelope

end LeaseLog
