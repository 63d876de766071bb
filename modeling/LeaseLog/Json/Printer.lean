import LeaseLog.Json.Basic
import LeaseLog.Text.Hex

/-!
# Written forms of JSON values

The compact form on one line, and the indented form with two spaces a level. In strings the two
delimiters and the control characters are escaped and everything else stands for itself.
-/

namespace LeaseLog.Json

/-- The form of one character inside a string. -/
def escape (c : Char) : List Char :=
  if c = '"' then ['\\', '"']
  else if c = '\\' then ['\\', '\\']
  else if c = '\n' then ['\\', 'n']
  else if c = '\r' then ['\\', 'r']
  else if c = '\t' then ['\\', 't']
  else if c.toNat = 8 then ['\\', 'b']
  else if c.toNat = 12 then ['\\', 'f']
  else if c.toNat < 32 then '\\' :: 'u' :: Text.hex 4 c.toNat
  else [c]

/-- A string in quotes. -/
def quote (text : String) : List Char := '"' :: text.toList.flatMap escape ++ ['"']

mutual

/-- The form of a value on one line. -/
def compact : Json → List Char
  | .null => "null".toList
  | .bool true => "true".toList
  | .bool false => "false".toList
  | .number value => value.toChars
  | .string value => quote value
  | .array items => '[' :: compactItems items ++ [']']
  | .object members => '\x7b' :: compactMembers members ++ ['\x7d']

/-- Items with commas between them. -/
def compactItems : List Json → List Char
  | [] => []
  | [item] => compact item
  | item :: next :: items => compact item ++ ',' :: compactItems (next :: items)

/-- Members with commas between them. -/
def compactMembers : List (String × Json) → List Char
  | [] => []
  | [(name, value)] => quote name ++ ':' :: compact value
  | (name, value) :: next :: members =>
    quote name ++ ':' :: compact value ++ ',' :: compactMembers (next :: members)

end

/-- A line break and the indentation of a level. -/
def newLine (level : Nat) : List Char := '\n' :: List.replicate (2 * level) ' '

mutual

/-- The indented form of a value that starts at a level. -/
def pretty (level : Nat) : Json → List Char
  | .null => "null".toList
  | .bool true => "true".toList
  | .bool false => "false".toList
  | .number value => value.toChars
  | .string value => quote value
  | .array [] => ['[', ']']
  | .array (item :: items) =>
    '[' :: newLine (level + 1) ++ pretty (level + 1) item ++ prettyItems (level + 1) items ++
      newLine level ++ [']']
  | .object [] => ['\x7b', '\x7d']
  | .object ((name, value) :: members) =>
    '\x7b' :: newLine (level + 1) ++ quote name ++ ':' :: ' ' :: pretty (level + 1) value ++
      prettyMembers (level + 1) members ++ newLine level ++ ['\x7d']

/-- The further items of an array, each behind a comma on a line of its own. -/
def prettyItems (level : Nat) : List Json → List Char
  | [] => []
  | item :: items => ',' :: newLine level ++ pretty level item ++ prettyItems level items

/-- The further members of an object, each behind a comma on a line of its own. -/
def prettyMembers (level : Nat) : List (String × Json) → List Char
  | [] => []
  | (name, value) :: members =>
    ',' :: newLine level ++ quote name ++ ':' :: ' ' :: pretty level value ++
      prettyMembers level members

end

/-- The compact form as text. -/
def toCompactText (value : Json) : String := String.ofList value.compact

/-- The indented form as text. -/
def toPrettyText (value : Json) : String := String.ofList (value.pretty 0)

end LeaseLog.Json
