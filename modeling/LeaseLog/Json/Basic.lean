import LeaseLog.Json.Number

/-!
# JSON values

Objects are lists of members in the order in which they are written. A payload of unknown shape
keeps its members sorted by name, each name once.
-/

namespace LeaseLog

/-- A JSON value. -/
inductive Json where
  | null
  | bool (value : Bool)
  | number (value : Number)
  | string (value : String)
  | array (items : List Json)
  | object (members : List (String × Json))
deriving Repr, Inhabited

namespace Json

mutual

/-- Equality of values is decidable, member by member. -/
def decEq : (a b : Json) → Decidable (a = b)
  | .null, b => match b with
    | .null => isTrue rfl
    | .bool _ | .number _ | .string _ | .array _ | .object _ => isFalse nofun
  | .bool x, b => match b with
    | .bool y => decidable_of_iff (x = y) (by simp)
    | .null | .number _ | .string _ | .array _ | .object _ => isFalse nofun
  | .number x, b => match b with
    | .number y => decidable_of_iff (x = y) (by simp)
    | .null | .bool _ | .string _ | .array _ | .object _ => isFalse nofun
  | .string x, b => match b with
    | .string y => decidable_of_iff (x = y) (by simp)
    | .null | .bool _ | .number _ | .array _ | .object _ => isFalse nofun
  | .array xs, b => match b with
    | .array ys => @decidable_of_iff _ (xs = ys) (by simp) (decEqItems xs ys)
    | .null | .bool _ | .number _ | .string _ | .object _ => isFalse nofun
  | .object xs, b => match b with
    | .object ys => @decidable_of_iff _ (xs = ys) (by simp) (decEqMembers xs ys)
    | .null | .bool _ | .number _ | .string _ | .array _ => isFalse nofun

/-- Equality of lists of values. -/
def decEqItems : (xs ys : List Json) → Decidable (xs = ys)
  | [], [] => isTrue rfl
  | [], _ :: _ | _ :: _, [] => isFalse nofun
  | x :: xs, y :: ys =>
    have := decEq x y
    have := decEqItems xs ys
    decidable_of_iff (x = y ∧ xs = ys) (by simp)

/-- Equality of lists of members. -/
def decEqMembers : (xs ys : List (String × Json)) → Decidable (xs = ys)
  | [], [] => isTrue rfl
  | [], _ :: _ | _ :: _, [] => isFalse nofun
  | (j, x) :: xs, (k, y) :: ys =>
    have := decEq x y
    have := decEqMembers xs ys
    decidable_of_iff (j = k ∧ x = y ∧ xs = ys) (by simp [and_assoc])

end

instance : DecidableEq Json := decEq

/-- A natural number as a value. -/
def nat (value : Nat) : Json := .number (.integer value)

/-- Null, or the value of what is there. -/
def ofOption {α : Type} (write : α → Json) : Option α → Json
  | none => .null
  | some value => write value

mutual

/-- How deep arrays and objects nest. -/
def height : Json → Nat
  | .array items => itemsHeight items + 1
  | .object members => membersHeight members + 1
  | .null | .bool _ | .number _ | .string _ => 0

/-- The greatest height among items. -/
def itemsHeight : List Json → Nat
  | [] => 0
  | item :: items => max item.height (itemsHeight items)

/-- The greatest height among members. -/
def membersHeight : List (String × Json) → Nat
  | [] => 0
  | (_, value) :: members => max value.height (membersHeight members)

end

/-- Puts a member at its place in a list sorted by name; a member of that name is replaced. -/
def insertMember (name : String) (value : Json) : List (String × Json) → List (String × Json)
  | [] => [(name, value)]
  | (other, kept) :: members =>
    match compare name other with
    | .lt => (name, value) :: (other, kept) :: members
    | .eq => (name, value) :: members
    | .gt => (other, kept) :: insertMember name value members

end Json

end LeaseLog
