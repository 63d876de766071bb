import LeaseLog.Query.Order

/-!
# Queries and their evaluation

A query says which rows it wants, in which order, and which page of them. A plan is a query made
ready for evaluation: `Plan.select` filters, sorts without moving ties, and cuts the page out.
-/

namespace LeaseLog

/-- What is asked of a log. -/
structure Query where
  filter : Filter
  order : Option Order
  skip : Option Nat
  take : Option Nat
  /-- Hints for the engine. -/
  options : Option (Std.ExtTreeMap String Json)

namespace Query

/-- The same rows in the opposite order. -/
def reversed (query : Query) : Query := { query with order := query.order.map Order.reversed }

/-- Whatever holds a lease now. -/
def ofLease (lease : Lease) : Query := ⟨.lease lease, none, none, some 1, none⟩

end Query

/-- A query made ready for evaluation. -/
structure Plan where
  filter : Filter
  directions : Option (List Direction)
  skip : Nat
  /-- How many rows are taken; all of them if no number is given. -/
  take : Option Nat

namespace Plan

/-- The plan of a query. -/
def of (query : Query) : Plan :=
  ⟨query.filter, query.order.map Order.directions, query.skip.getD 0, query.take⟩

/-- The rows that match, in input order. -/
def matching {α : Type} (plan : Plan) (rows : List (Row × α)) : List (Row × α) :=
  rows.filter fun row => plan.filter.accepts row.1

/-- The matching rows in the order of the plan; ties keep their input order. -/
def arrange {α : Type} (plan : Plan) (rows : List (Row × α)) : List (Row × α) :=
  match plan.directions with
  | none => plan.matching rows
  | some directions =>
    (plan.matching rows).mergeSort fun a b => (compareRows directions a.1 b.1).isLE

/-- The page of a list. -/
def page {α : Type} (skip : Nat) (take : Option Nat) (items : List α) : List α :=
  match take with
  | none => items.drop skip
  | some count => (items.drop skip).take count

/-- The items of the rows that a plan selects. -/
def select {α : Type} (plan : Plan) (rows : List (Row × α)) : List α :=
  (page plan.skip plan.take (plan.arrange rows)).map Prod.snd

end Plan

end LeaseLog
