import LeaseLog.Json.Basic
import LeaseLog.Text.Hex

/-!
# Reading JSON texts

A text is read into a `Reading`, which follows the text as far as it is well formed: a container
that breaks off keeps what stands before the break. A decoder walks a reading in the order of the
text, so of two faults it reports the one that comes first, whether it is one of form or one of
content.

Three things are left to the decoder because they matter only where the value is used: numbers
that are too large, strings that hold half of a surrogate pair, and the depth of nesting.
-/

namespace LeaseLog

/-- A text as far as it can be read. -/
inductive Reading where
  | null
  | bool (value : Bool)
  /-- A numeral; without a number if it is too large. -/
  | number (value : Option Number)
  /-- A string; without a value if it holds half of a surrogate pair. -/
  | string (value : Option String)
  /-- The items up to the closing bracket, or up to a break. -/
  | array (items : List Reading) (closed : Bool)
  /-- The members up to the closing brace, or up to a break. -/
  | object (members : List (Option String × Reading)) (closed : Bool)
  /-- No value stands here. -/
  | broken
deriving Repr, Inhabited

namespace Reading

/-- Whether the value stands in the text in full. -/
def isComplete : Reading → Bool
  | .array _ closed => closed
  | .object _ closed => closed
  | .broken => false
  | .null | .bool _ | .number _ | .string _ => true

/-! ## Strings -/

/-- Whether a code unit is the first half of a surrogate pair. -/
def isHighSurrogate (unit : Nat) : Bool := 0xD800 ≤ unit && unit ≤ 0xDBFF

/-- Whether a code unit is the second half of a surrogate pair. -/
def isLowSurrogate (unit : Nat) : Bool := 0xDC00 ≤ unit && unit ≤ 0xDFFF

/-- The character of a surrogate pair. -/
def joinSurrogates (high low : Nat) : Char :=
  Char.ofNat (0x10000 + (high - 0xD800) * 0x400 + (low - 0xDC00))

/-- The characters of a string so far, in reverse: a first half that waits for the second one,
and whether every half has found its partner. -/
structure Partial where
  reversed : List Char
  pending : Option Nat
  paired : Bool

namespace Partial

/-- Nothing read yet. -/
def empty : Partial := ⟨[], none, true⟩

/-- One more character. -/
def push (p : Partial) (c : Char) : Partial :=
  ⟨c :: p.reversed, none, p.paired && p.pending.isNone⟩

/-- One more code unit, written as an escape. -/
def pushUnit (p : Partial) (unit : Nat) : Partial :=
  match p.pending with
  | some high =>
    if isLowSurrogate unit then ⟨joinSurrogates high unit :: p.reversed, none, p.paired⟩
    else ⟨p.reversed, none, false⟩
  | none =>
    if isHighSurrogate unit then ⟨p.reversed, some unit, p.paired⟩
    else if isLowSurrogate unit then ⟨p.reversed, none, false⟩
    else ⟨Char.ofNat unit :: p.reversed, none, p.paired⟩

/-- The string at its closing quote. -/
def finish (p : Partial) : Option String :=
  if p.paired && p.pending.isNone then some (String.ofList p.reversed.reverse) else none

end Partial

/-- The character behind a backslash that stands for one character. -/
def unescape? : Char → Option Char
  | '"' => some '"'
  | '\\' => some '\\'
  | '/' => some '/'
  | 'b' => some (Char.ofNat 8)
  | 'f' => some (Char.ofNat 12)
  | 'n' => some '\n'
  | 'r' => some '\r'
  | 't' => some '\t'
  | _ => none

/-- Reads a string behind its opening quote: the string, and the text behind the closing quote. -/
def readString (p : Partial) : List Char → Option (Option String × List Char)
  | [] => none
  | '"' :: rest => some (p.finish, rest)
  | '\\' :: 'u' :: a :: b :: c :: d :: rest =>
    match Text.ofHex? [a, b, c, d] with
    | some unit => readString (p.pushUnit unit) rest
    | none => none
  | '\\' :: c :: rest =>
    match unescape? c with
    | some plain => readString (p.push plain) rest
    | none => none
  | c :: rest => if c.toNat < 32 ∨ c = '\\' then none else readString (p.push c) rest

/-! ## Numbers -/

/-- Reads the digits at the front. -/
def readDigits (cs : List Char) : List Char × List Char :=
  (cs.takeWhile Text.isDigit, cs.dropWhile Text.isDigit)

/-- Reads digits of which there has to be one. -/
def readSomeDigits (cs : List Char) : Option (List Char × List Char) :=
  match readDigits cs with
  | ([], _) => none
  | digits => some digits

/-- Reads the digits before the point: one zero, or digits that do not start with zero. -/
def readWhole (cs : List Char) : Option (List Char × List Char) :=
  match readSomeDigits cs with
  | some ('0' :: _ :: _, _) => none
  | digits => digits

/-- Reads a point and digits, if a point is there. -/
def readFraction : List Char → Option (List Char × List Char)
  | '.' :: rest => readSomeDigits rest
  | cs => some ([], cs)

/-- Reads a sign, if one is there: whether it is a minus. -/
def readSign : List Char → Bool × List Char
  | '+' :: rest => (false, rest)
  | '-' :: rest => (true, rest)
  | cs => (false, cs)

/-- Reads an exponent, if one is there. -/
def readExponent : List Char → Option (Option (Bool × List Char) × List Char)
  | c :: rest =>
    if c = 'e' ∨ c = 'E' then
      let sign := readSign rest
      match readSomeDigits sign.2 with
      | some (digits, rest) => some (some (sign.1, digits), rest)
      | none => none
    else some (none, c :: rest)
  | [] => some (none, [])

/-- Reads a numeral behind its sign. -/
def readUnsigned (negative : Bool) (cs : List Char) : Reading × List Char :=
  match readWhole cs with
  | none => (.broken, [])
  | some (whole, rest) =>
    match readFraction rest with
    | none => (.broken, [])
    | some (fraction, rest) =>
      match readExponent rest with
      | none => (.broken, [])
      | some (exponent, rest) =>
        (.number (Number.ofNumeral ⟨negative, whole, fraction, exponent⟩), rest)

/-- Reads a numeral. -/
def readNumber : List Char → Reading × List Char
  | '-' :: rest => readUnsigned true rest
  | cs => readUnsigned false cs

/-! ## Values -/

/-- Whether a character may stand between the parts of a text. -/
def isSpace (c : Char) : Bool := c = ' ' || c = '\n' || c = '\t' || c = '\r'

/-- The text behind leading space. -/
def skipSpace (cs : List Char) : List Char := cs.dropWhile isSpace

/-- Reads the letters of a name behind its first letter. -/
def readName (letters : List Char) (value : Reading) (cs : List Char) : Reading × List Char :=
  if cs.take letters.length = letters then (value, cs.drop letters.length) else (.broken, [])

mutual

/-- Reads one value: the value, and the text behind it. The first argument bounds the number of
nested steps. -/
def readValue : Nat → List Char → Reading × List Char
  | 0, _ => (.broken, [])
  | steps + 1, cs =>
    match skipSpace cs with
    | [] => (.broken, [])
    | 'n' :: rest => readName ['u', 'l', 'l'] .null rest
    | 't' :: rest => readName ['r', 'u', 'e'] (.bool true) rest
    | 'f' :: rest => readName ['a', 'l', 's', 'e'] (.bool false) rest
    | '"' :: rest =>
      match readString .empty rest with
      | some (value, rest) => (.string value, rest)
      | none => (.broken, [])
    | '[' :: rest =>
      match skipSpace rest with
      | ']' :: rest => (.array [] true, rest)
      | rest =>
        let (items, closed, rest) := readItems steps rest
        (.array items closed, rest)
    | '\x7b' :: rest =>
      match skipSpace rest with
      | '\x7d' :: rest => (.object [] true, rest)
      | rest =>
        let (members, closed, rest) := readMembers steps rest
        (.object members closed, rest)
    | c :: rest => if c = '-' ∨ Text.isDigit c then readNumber (c :: rest) else (.broken, [])

/-- Reads items up to a closing bracket: the items, whether the bracket is there, and the text
behind it. -/
def readItems : Nat → List Char → List Reading × Bool × List Char
  | 0, _ => ([], false, [])
  | steps + 1, cs =>
    let (item, rest) := readValue steps cs
    if item.isComplete then
      match skipSpace rest with
      | ',' :: rest =>
        let (items, closed, rest) := readItems steps rest
        (item :: items, closed, rest)
      | ']' :: rest => ([item], true, rest)
      | _ => ([item], false, [])
    else ([item], false, [])

/-- Reads members up to a closing brace: the members, whether the brace is there, and the text
behind it. -/
def readMembers : Nat → List Char → List (Option String × Reading) × Bool × List Char
  | 0, _ => ([], false, [])
  | steps + 1, cs =>
    match skipSpace cs with
    | '"' :: rest =>
      match readString .empty rest with
      | none => ([], false, [])
      | some (name, rest) =>
        match skipSpace rest with
        | ':' :: rest =>
          let (value, rest) := readValue steps rest
          if value.isComplete then
            match skipSpace rest with
            | ',' :: rest =>
              let (members, closed, rest) := readMembers steps rest
              ((name, value) :: members, closed, rest)
            | '\x7d' :: rest => ([(name, value)], true, rest)
            | _ => ([(name, value)], false, [])
          else ([(name, value)], false, [])
        | _ => ([(name, .broken)], false, [])
    | _ => ([], false, [])

end

/-- Reads the value at the start of a text, and whether anything but space follows it. Two steps
for every character are enough. -/
def ofText (text : String) : Reading × Bool :=
  let cs := text.toList
  let (value, rest) := readValue (2 * cs.length + 2) cs
  (value, !(skipSpace rest).isEmpty)

/-! ## Values as readings -/

mutual

/-- The reading of a value's written form. -/
def ofJson : Json → Reading
  | .null => .null
  | .bool value => .bool value
  | .number value => .number (some value)
  | .string value => .string (some value)
  | .array items => .array (ofItems items) true
  | .object members => .object (ofMembers members) true

/-- The readings of items. -/
def ofItems : List Json → List Reading
  | [] => []
  | item :: items => ofJson item :: ofItems items

/-- The readings of members. -/
def ofMembers : List (String × Json) → List (Option String × Reading)
  | [] => []
  | (name, value) :: members => (some name, ofJson value) :: ofMembers members

end

end Reading

end LeaseLog
