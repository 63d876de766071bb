import LeaseLog.Envelope
import LeaseLog.Instant.Text
import LeaseLog.Lease
import LeaseLog.Pointer

/-!
# Filters

A filter is an expression over the fields of a row. `Filter.accepts` evaluates it; a field with
several values meets a condition when one of them does. `Filter.simplify` removes double negation,
trivial parts and lists of one part.
-/

namespace LeaseLog

/-- How a value is compared with a bound. -/
inductive Comparison
  | equal
  | atLeast
  | atMost
deriving DecidableEq, Repr

namespace Comparison

/-- Whether a value compares with a bound as asked. -/
def holds {α : Type} [Ord α] (comparison : Comparison) (actual bound : α) : Bool :=
  match comparison with
  | .equal => (compare actual bound).isEq
  | .atLeast => (compare actual bound).isGE
  | .atMost => (compare actual bound).isLE

/-- The sign of a comparison. -/
def toText : Comparison → String
  | .equal => "="
  | .atLeast => ">="
  | .atMost => "<="

end Comparison

/-- What filters and orders see of a stored record. -/
structure Row where
  sourceIds : List Ident
  timestamp : Option Instant
  dataTypes : List DataType
  states : List Pointer
  leases : List Lease
  tags : List Tag
deriving DecidableEq, Repr, Inhabited

/-- A condition on rows. -/
inductive Filter
  | all
  | not (filter : Filter)
  | and (filters : List Filter)
  | or (filters : List Filter)
  | sourceIdIn (ids : List Ident)
  | timestamp (comparison : Comparison) (bound : Instant)
  | dataTypeIn (types : List DataType)
  | stateIdIn (ids : List Ident)
  | stateVersion (comparison : Comparison) (bound : Version)
  | lease (lease : Lease)
  | leaseScope (scope : String)
  | leaseLabel (label : String)
  | leaseValue (value : String)
  | tag (tag : Tag)
  | tagLabel (label : String)
  | tagValue (value : String)
deriving Repr, Inhabited

namespace Filter

/-! ## Meaning -/

mutual

/-- Whether a row meets a condition. -/
def accepts (row : Row) : Filter → Bool
  | .all => true
  | .not filter => !filter.accepts row
  | .and filters => allAccept row filters
  | .or filters => anyAccepts row filters
  | .sourceIdIn ids => row.sourceIds.any fun id => decide (id ∈ ids)
  | .timestamp comparison bound => row.timestamp.any fun time => comparison.holds time bound
  | .dataTypeIn types => row.dataTypes.any fun dataType => decide (dataType ∈ types)
  | .stateIdIn ids => row.states.any fun state => decide (state.id ∈ ids)
  | .stateVersion comparison bound =>
    row.states.any fun state => comparison.holds state.version bound
  | .lease wanted => decide (wanted ∈ row.leases)
  | .leaseScope scope => row.leases.any fun held => held.scope == scope
  | .leaseLabel label => row.leases.any fun held => held.label == label
  | .leaseValue value => row.leases.any fun held => held.value == value
  | .tag wanted => decide (wanted ∈ row.tags)
  | .tagLabel label => row.tags.any fun carried => carried.label == label
  | .tagValue value => row.tags.any fun carried => carried.value == value

/-- Whether a row meets all conditions. -/
def allAccept (row : Row) : List Filter → Bool
  | [] => true
  | filter :: filters => filter.accepts row && allAccept row filters

/-- Whether a row meets one of the conditions. -/
def anyAccepts (row : Row) : List Filter → Bool
  | [] => false
  | filter :: filters => filter.accepts row || anyAccepts row filters

end

/-! ## Simplification -/

/-- Whether this is the condition that every row meets. -/
def isAll : Filter → Bool
  | .all => true
  | _ => false

/-- The opposite of a condition, without double negation. -/
def negate : Filter → Filter
  | .not filter => filter
  | filter => .not filter

/-- All of some conditions, without those that every row meets. -/
def conjoin (filters : List Filter) : Filter :=
  match filters.filter (!·.isAll) with
  | [] => .all
  | [filter] => filter
  | filters => .and filters

/-- One of some conditions, unless every row meets one of them. -/
def disjoin (filters : List Filter) : Filter :=
  if filters.any isAll then .all
  else
    match filters with
    | [filter] => filter
    | filters => .or filters

mutual

/-- The condition built from the inside out with `negate`, `conjoin` and `disjoin`. -/
def simplify : Filter → Filter
  | .not filter => negate filter.simplify
  | .and filters => conjoin (simplifyList filters)
  | .or filters => disjoin (simplifyList filters)
  | filter => filter

/-- Simplifies conditions one by one. -/
def simplifyList : List Filter → List Filter
  | [] => []
  | filter :: filters => filter.simplify :: simplifyList filters

end

/-! ## Written form -/

mutual

/-- The written form of a condition. -/
def toText : Filter → String
  | .all => "*"
  | .not filter => "not(" ++ filter.toText ++ ")"
  | .and filters => "(" ++ String.intercalate " and " (textList filters) ++ ")"
  | .or filters => "(" ++ String.intercalate " or " (textList filters) ++ ")"
  | .sourceIdIn ids => "source_id in [" ++ String.intercalate ", " (ids.map Ident.toText) ++ "]"
  | .timestamp comparison bound => "timestamp " ++ comparison.toText ++ " " ++ bound.toOffsetText
  | .dataTypeIn types =>
    "data_type in [" ++ String.intercalate ", " (types.map DataType.toText) ++ "]"
  | .stateIdIn ids => "state_id in [" ++ String.intercalate ", " (ids.map Ident.toText) ++ "]"
  | .stateVersion comparison bound => "state_version " ++ comparison.toText ++ " " ++ bound.toText
  | .lease wanted => "lease = " ++ wanted.toText
  | .leaseScope scope => "lease.scope = " ++ scope
  | .leaseLabel label => "lease.label = " ++ label
  | .leaseValue value => "lease.value = " ++ value
  | .tag wanted => "tag = " ++ wanted.toText
  | .tagLabel label => "tag.label = " ++ label
  | .tagValue value => "tag.value = " ++ value

/-- The written forms of conditions. -/
def textList : List Filter → List String
  | [] => []
  | filter :: filters => filter.toText :: textList filters

end

end Filter

end LeaseLog
