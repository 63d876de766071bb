import LeaseLog.Text.Decimal

/-!
# Versions

The 64-bit state counter of an entity. Version zero stands for an entity that was never written,
and inside a pointer that is used as a target it stands for whatever the latest version is.
-/

namespace LeaseLog

/-- A 64-bit state counter. -/
structure Version where
  toNat : Nat
  isLt : toNat < Nat.pow 2 64
deriving DecidableEq, Repr

/-- Why a version has no neighbour. -/
inductive VersionError
  /-- There is nothing before version zero. -/
  | underflow
  /-- There is nothing after the largest version. -/
  | overflow (version : Version)
deriving DecidableEq, Repr

namespace Version

instance : Ord Version := ⟨compareOn toNat⟩

instance : Std.TransOrd Version := inferInstanceAs (Std.TransCmp (compareOn toNat))

instance : Std.LawfulEqOrd Version where
  compare_self := (inferInstance : Std.ReflCmp (compareOn toNat)).compare_self
  eq_of_compare {a b} same := by
    have values : a.toNat = b.toNat :=
      Std.LawfulEqCmp.eq_of_compare (show compare a.toNat b.toNat = .eq from same)
    cases a; cases b; simp_all

/-- The version of an entity that was never written. -/
def zero : Version := ⟨0, by decide⟩

instance : Inhabited Version := ⟨zero⟩

/-- The version with a given number, if it fits the counter. -/
def ofNat? (number : Nat) : Option Version :=
  if h : number < Nat.pow 2 64 then some ⟨number, h⟩ else none

/-- Whether this is version zero. -/
def isZero (version : Version) : Bool := version.toNat == 0

/-- The version after this one. -/
def next (version : Version) : Except VersionError Version :=
  if h : version.toNat + 1 < Nat.pow 2 64 then .ok ⟨version.toNat + 1, h⟩
  else .error (.overflow version)

/-- The version before this one. -/
def previous (version : Version) : Except VersionError Version :=
  if version.toNat = 0 then .error .underflow
  else .ok ⟨version.toNat - 1, Nat.lt_of_le_of_lt (Nat.sub_le _ _) version.isLt⟩

/-- The decimal numeral of a version. -/
def toText (version : Version) : String := Text.decimalText version.toNat

end Version

/-- The wording of a version error. -/
def VersionError.message : VersionError → String
  | .underflow => "version zero has no previous version"
  | .overflow version => "version " ++ version.toText ++ " has no next version"

end LeaseLog
