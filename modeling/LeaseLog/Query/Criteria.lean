import LeaseLog.Query.Plan

/-!
# Criteria

The everyday query: every field that is filled in narrows the result. Results come oldest first,
and then by version.
-/

namespace LeaseLog

/-- What a record has to meet; a field that is empty asks for nothing. -/
structure Criteria where
  sourceIds : List Ident
  stateIds : List Ident
  minVersion : Option Version
  maxVersion : Option Version
  notBefore : Option Instant
  notAfter : Option Instant
  dataTypes : List DataType
  leaseScope : Option String
  leaseLabel : Option String
  tags : List Tag
  skip : Option Nat
  take : Option Nat
  options : Std.ExtTreeMap String Json

namespace Criteria

/-- Criteria that every record meets. -/
def any : Criteria := ⟨[], [], none, none, none, none, [], none, none, [], none, none, ∅⟩

/-- The conditions of the fields that are filled in. -/
def conditions (criteria : Criteria) : List Filter :=
  (if criteria.sourceIds.isEmpty then [] else [.sourceIdIn criteria.sourceIds]) ++
    (if criteria.stateIds.isEmpty then [] else [.stateIdIn criteria.stateIds]) ++
    (criteria.minVersion.map (Filter.stateVersion .atLeast)).toList ++
    (criteria.maxVersion.map (Filter.stateVersion .atMost)).toList ++
    (criteria.notBefore.map (Filter.timestamp .atLeast)).toList ++
    (criteria.notAfter.map (Filter.timestamp .atMost)).toList ++
    (if criteria.dataTypes.isEmpty then [] else [.dataTypeIn criteria.dataTypes]) ++
    (criteria.leaseScope.map Filter.leaseScope).toList ++
    (criteria.leaseLabel.map Filter.leaseLabel).toList ++
    criteria.tags.map Filter.tag

/-- Oldest first, and then by version. -/
def order : Order := .andThen (.by .timestamp true) (.by .stateVersion true)

/-- The query of the criteria. -/
def toQuery (criteria : Criteria) : Query :=
  ⟨.conjoin criteria.conditions, some order, criteria.skip, criteria.take, some criteria.options⟩

end Criteria

end LeaseLog
