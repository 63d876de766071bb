import LeaseLog.Json.Fields
import LeaseLog.Query.Criteria

/-!
# JSON forms of queries

Filters and orders are lists: the name of an operator and its operands. Queries and rows are objects
whose members may be missing or null.
-/

namespace LeaseLog

/-- A comparison by its sign. -/
def Comparison.ofJson? : Json → Option Comparison
  | .string "=" => some .equal
  | .string ">=" => some .atLeast
  | .string "<=" => some .atMost
  | _ => none

namespace Filter

/-- A condition on one field. -/
def ofField? (operator : String) (operands : List Json) : Option Filter :=
  match operator, operands with
  | "source_id_in", [ids] => (Json.list? (Json.as? Ident.decoder) ids).map sourceIdIn
  | "source_id_eq", [id] => (id.as? Ident.decoder).map fun id => sourceIdIn [id]
  | "timestamp", [comparison, bound] => do
    some (timestamp (← Comparison.ofJson? comparison) (← bound.as? Instant.decoder))
  | "data_type_in", [types] => (Json.list? DataType.ofJson? types).map dataTypeIn
  | "state_id_in", [ids] => (Json.list? (Json.as? Ident.decoder) ids).map stateIdIn
  | "state_version", [comparison, bound] => do
    some (stateVersion (← Comparison.ofJson? comparison) (← bound.as? Version.decoder))
  | "state_version_gte", [bound] => (bound.as? Version.decoder).map (stateVersion .atLeast)
  | "state_version_lte", [bound] => (bound.as? Version.decoder).map (stateVersion .atMost)
  | "lease", [wanted] => (wanted.as? Lease.decoder).map Filter.lease
  | "lease_scope", [scope] => scope.text?.map leaseScope
  | "lease_label", [label] => label.text?.map leaseLabel
  | "lease_value", [value] => value.text?.map leaseValue
  | "tag", [wanted] => (wanted.as? Tag.decoder).map Filter.tag
  | "tag_label", [label] => label.text?.map tagLabel
  | "tag_value", [value] => value.text?.map tagValue
  | _, _ => none

mutual

/-- The condition that a value stands for, as it is written. -/
def ofJson? : Json → Option Filter
  | .array [.string "all"] => some .all
  | .array [.string "not", filter] => (ofJson? filter).map .not
  | .array [.string "and", .array filters] => (ofJsonList? filters).map .and
  | .array [.string "or", .array filters] => (ofJsonList? filters).map .or
  | .array (.string operator :: operands) => ofField? operator operands
  | _ => none

/-- The conditions that values stand for. -/
def ofJsonList? : List Json → Option (List Filter)
  | [] => some []
  | value :: values =>
    match ofJson? value, ofJsonList? values with
    | some filter, some filters => some (filter :: filters)
    | _, _ => none

end

end Filter

/-- A sort key by its name. -/
def SortKey.ofJson? : Json → Option SortKey
  | .string "timestamp" => some .timestamp
  | .string "source_id" => some .sourceId
  | .string "state_id" => some .stateId
  | .string "state_version" => some .stateVersion
  | _ => none

/-- The name of a sort key. -/
def SortKey.toText : SortKey → String
  | .timestamp => "timestamp"
  | .sourceId => "source_id"
  | .stateId => "state_id"
  | .stateVersion => "state_version"

/-- A key and whether it is ascending. -/
def Direction.toJson (direction : Direction) : Json :=
  .array [.string direction.key.toText, .bool direction.ascending]

/-- A key and whether it is ascending, or two orders of which the second one breaks ties. -/
def Order.ofJson? : Json → Option Order
  | .array [.string "then", first, next] =>
    match ofJson? first, ofJson? next with
    | some first, some next => some (.andThen first next)
    | _, _ => none
  | .array [key, .bool ascending] => (SortKey.ofJson? key).map fun key => .by key ascending
  | _ => none

/-- The fields of a row. -/
def Row.ofJson? (value : Json) : Option Row := do
  some {
    sourceIds := ← value.listMember? "source_ids" (Json.as? Ident.decoder)
    timestamp := ← value.optional? "timestamp" (Json.as? Instant.decoder)
    dataTypes := ← value.listMember? "data_types" DataType.ofJson?
    states := ← value.listMember? "states" (Json.as? Pointer.decoder)
    leases := ← value.listMember? "leases" (Json.as? Lease.decoder)
    tags := ← value.listMember? "tags" (Json.as? Tag.decoder) }

/-- A hint and its value. -/
def Criteria.optionOfJson? : Json → Option (String × Json)
  | .array [.string name, value] => some (name, value)
  | _ => none

/-- The fields of criteria. -/
def Criteria.ofJson? (value : Json) : Option Criteria := do
  let options ← value.listMember? "options" optionOfJson?
  some {
    sourceIds := ← value.listMember? "source_ids" (Json.as? Ident.decoder)
    stateIds := ← value.listMember? "state_ids" (Json.as? Ident.decoder)
    minVersion := ← value.optional? "min_version" (Json.as? Version.decoder)
    maxVersion := ← value.optional? "max_version" (Json.as? Version.decoder)
    notBefore := ← value.optional? "since" (Json.as? Instant.decoder)
    notAfter := ← value.optional? "until" (Json.as? Instant.decoder)
    dataTypes := ← value.listMember? "data_types" DataType.ofJson?
    leaseScope := ← value.optional? "lease_scope" Json.text?
    leaseLabel := ← value.optional? "lease_label" Json.text?
    tags := ← value.listMember? "tags" (Json.as? Tag.decoder)
    skip := ← value.optional? "skip" Json.nat?
    take := ← value.optional? "take" Json.nat?
    options := options.foldl (fun table (name, hint) => table.insert name hint) ∅ }

namespace Query

/-- A query whose condition and order are written out. The condition is simplified. -/
def customOfJson? (value : Json) : Option Query := do
  let filter ← value.optional? "filter" Filter.ofJson?
  some {
    filter := (filter.getD .all).simplify
    order := ← value.optional? "sort" Order.ofJson?
    skip := ← value.optional? "skip" Json.nat?
    take := ← value.optional? "take" Json.nat?
    options := none }

/-- A query of one of three kinds: criteria, which need no mark, the lookup of a lease, or one that
is written out. It may be reversed any number of times. -/
def ofJson? (value : Json) : Option Query := do
  let kind ← value.optional? "kind" Json.text?
  let query ← match kind with
    | none | some "state" => (Criteria.ofJson? value).map Criteria.toQuery
    | some "lookup" => do some (ofLease (← (← value.member? "lease").as? Lease.decoder))
    | some "custom" => customOfJson? value
    | some _ => none
  let times ← value.optional? "reversed" Json.nat?
  some (Nat.repeat reversed (times.getD 0) query)

end Query

end LeaseLog
