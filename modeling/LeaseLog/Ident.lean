import LeaseLog.Text.Hex

/-!
# Identifiers

Opaque 128-bit identifiers of entities and sources. They are written as five hyphenated groups of
lower-case hexadecimal digits and are read back in that form, as 32 bare digits, in braces or
behind `urn:uuid:`, with letters in either case.
-/

namespace LeaseLog

/-- An opaque 128-bit identifier. -/
structure Ident where
  toNat : Nat
  isLt : toNat < Nat.pow 2 128
deriving DecidableEq, Repr

namespace Ident

/-- Identifiers are ordered by value, which is the order of their written forms. -/
instance : Ord Ident := ⟨compareOn toNat⟩

instance : Std.TransOrd Ident := inferInstanceAs (Std.TransCmp (compareOn toNat))

instance : Std.LawfulEqOrd Ident where
  compare_self := (inferInstance : Std.ReflCmp (compareOn toNat)).compare_self
  eq_of_compare {a b} same := by
    have values : a.toNat = b.toNat :=
      Std.LawfulEqCmp.eq_of_compare (show compare a.toNat b.toNat = .eq from same)
    cases a; cases b; simp_all

/-- The identifier with a given value modulo `2 ^ 128`. -/
def ofNat (value : Nat) : Ident :=
  ⟨value % Nat.pow 2 128, Nat.mod_lt _ (by decide)⟩

instance : Inhabited Ident := ⟨ofNat 0⟩

/-- The widths of the hyphenated groups. -/
def groupWidths : List Nat := [8, 4, 4, 4, 12]

/-- Digits cut into groups of the given widths, with hyphens between the groups. -/
def hyphenate : List Nat → List Char → List Char
  | [], _ => []
  | [width], digits => digits.take width
  | width :: widths, digits =>
      digits.take width ++ '-' :: hyphenate widths (digits.drop width)

/-- The digits of groups of exactly the given widths with hyphens between them. -/
def unhyphenate? : List Nat → List Char → Option (List Char)
  | [], _ => none
  | [width], cs => if cs.length = width then some cs else none
  | width :: widths, cs =>
      match cs.drop width with
      | '-' :: rest => (unhyphenate? widths rest).map (cs.take width ++ ·)
      | _ => none

/-- The five hyphenated groups. -/
def toChars (id : Ident) : List Char := hyphenate groupWidths (Text.hex 32 id.toNat)

/-- The written form of an identifier. -/
def toText (id : Ident) : String := String.ofList id.toChars

/-- The identifier with the given 32 digits. -/
def ofDigits? (digits : List Char) : Option Ident :=
  if digits.length = 32 then
    match Text.ofHex? digits with
    | some value => if h : value < Nat.pow 2 128 then some ⟨value, h⟩ else none
    | none => none
  else none

/-- Reads the hyphenated form. -/
def ofHyphenated? (cs : List Char) : Option Ident :=
  (unhyphenate? groupWidths cs).bind ofDigits?

/-- The text between braces. -/
def braced? : List Char → Option (List Char)
  | '{' :: rest => if rest.getLast? = some '}' then some rest.dropLast else none
  | _ => none

/-- The text behind `urn:uuid:`, whose letters may be in either case. -/
def afterUrn? (cs : List Char) : Option (List Char) :=
  let urn := "urn:uuid:".toList
  if (cs.take urn.length).map Char.toLower = urn then some (cs.drop urn.length) else none

/-- Reads any of the accepted forms. -/
def ofChars? (cs : List Char) : Option Ident :=
  if cs.length = 32 then ofDigits? cs
  else match braced? cs, afterUrn? cs with
    | some inner, _ => ofHyphenated? inner
    | none, some inner => ofHyphenated? inner
    | none, none => ofHyphenated? cs

/-- Reads the text of an identifier in any of the accepted forms. -/
def ofText? (text : String) : Option Ident := ofChars? text.toList

end Ident

end LeaseLog
