import LeaseLog.Text.Decimal

/-!
# Reports

What is reported of a payload that cannot be written: a wording, and the position in a text that it
speaks of, if it names one. The text of a report ends in the position, as ` at line 3 column 4`. A
text that ends in such words is read as a report with a position, and is written again with plain
numerals. Lines are counted from one, so line zero stands for no position.
-/

namespace LeaseLog

/-- A position in a text. -/
structure Position where
  line : Nat
  column : Nat
deriving DecidableEq, Repr

namespace Position

/-- The words in front of a line. -/
def lineMark : List Char := " at line ".toList

/-- The words in front of a column. -/
def columnMark : List Char := " column ".toList

/-- What follows a mark, if the text starts with it. -/
def behind? (mark text : List Char) : Option (List Char) :=
  if mark.isPrefixOf text then some (text.drop mark.length) else none

/-- The number that a text consists of: digits, at least one, and a value of 64 bits. -/
def number? (text : List Char) : Option Nat :=
  if text ≠ [] ∧ text.all Text.isDigit ∧ Text.ofDigits text < Nat.pow 2 64 then
    some (Text.ofDigits text)
  else none

/-- Reads a text that consists of a position. -/
def ofChars? (text : List Char) : Option Position :=
  match behind? lineMark text with
  | none => none
  | some afterLine =>
    match behind? columnMark (afterLine.dropWhile Text.isDigit) with
    | none => none
    | some afterColumn =>
      match number? (afterLine.takeWhile Text.isDigit), number? afterColumn with
      | some line, some column => some ⟨line, column⟩
      | _, _ => none

/-- The text of a position. -/
def toText (position : Position) : String :=
  " at line " ++ Text.decimalText position.line ++ " column " ++ Text.decimalText position.column

end Position

/-- A wording, and the position that it speaks of. -/
structure Report where
  wording : String
  position : Option Position
deriving DecidableEq, Repr

namespace Report

/-- Cuts the position off the end of a text. -/
def split : List Char → List Char × Option Position
  | [] => ([], none)
  | c :: cs =>
    match Position.ofChars? (c :: cs) with
    | some position => ([], some position)
    | none =>
      let (wording, position) := split cs
      (c :: wording, position)

/-- Reads a report. -/
def ofText (text : String) : Report :=
  let (wording, position) := split text.toList
  ⟨String.ofList wording, position.filter fun position => position.line ≠ 0⟩

/-- The text of a report. -/
def toText (report : Report) : String :=
  match report.position with
  | none => report.wording
  | some position => report.wording ++ position.toText

end Report

end LeaseLog
