import LeaseLog.Query.Filter

/-!
# Orders of rows

An order is built from single keys, each upward or downward, by breaking the ties of one order with
another. A row without a value for a key comes before those that have one.
-/

namespace LeaseLog

/-- What rows are ordered by: a field, and of a field with several values the first one. -/
inductive SortKey
  | timestamp
  | sourceId
  | stateId
  | stateVersion
deriving DecidableEq, Repr

namespace SortKey

/-- Compares two rows by a key. -/
def compareRows : SortKey → Row → Row → Ordering
  | .timestamp, a, b => compare a.timestamp b.timestamp
  | .sourceId, a, b => compare a.sourceIds.head? b.sourceIds.head?
  | .stateId, a, b => compare (a.states.head?.map Pointer.id) (b.states.head?.map Pointer.id)
  | .stateVersion, a, b =>
    compare (a.states.head?.map Pointer.version) (b.states.head?.map Pointer.version)

end SortKey

/-- A key and its direction. -/
structure Direction where
  key : SortKey
  ascending : Bool
deriving DecidableEq, Repr

namespace Direction

/-- The same key the other way round. -/
def flip (direction : Direction) : Direction := { direction with ascending := !direction.ascending }

/-- Compares two rows by a key in its direction. -/
def compareRows (direction : Direction) (a b : Row) : Ordering :=
  let upward := direction.key.compareRows a b
  if direction.ascending then upward else upward.swap

end Direction

/-- How rows are ordered. -/
inductive Order
  | by (key : SortKey) (ascending : Bool)
  /-- By the first order, and where it sees a tie by the next one. -/
  | andThen (first next : Order)
deriving DecidableEq, Repr

namespace Order

/-- The keys of an order, the most significant one first. -/
def directions : Order → List Direction
  | .by key ascending => [⟨key, ascending⟩]
  | .andThen first next => first.directions ++ next.directions

/-- The order with every key the other way round. -/
def reversed : Order → Order
  | .by key ascending => .by key (!ascending)
  | .andThen first next => .andThen first.reversed next.reversed

end Order

/-- Compares two rows by keys of falling significance. -/
def compareRows : List Direction → Row → Row → Ordering
  | [], _, _ => .eq
  | direction :: directions, a, b =>
    match direction.compareRows a b with
    | .eq => compareRows directions a b
    | decided => decided

end LeaseLog
