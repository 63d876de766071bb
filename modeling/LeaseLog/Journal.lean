import LeaseLog.Json.Forms
import LeaseLog.Json.Printer

/-!
# Journals

A journal is the text of a list of sources: indented JSON, which is read back in any layout.
-/

namespace LeaseLog.Journal

/-- The text of sources. -/
def toText (sources : List Source) : String := (Json.ofList Source.toJson sources).toPrettyText

/-- The sources in a text. -/
def ofText (text : String) : Except DecodeError (List Source) :=
  Decoder.ofText (Decoder.list Source.decoder) text

end LeaseLog.Journal
