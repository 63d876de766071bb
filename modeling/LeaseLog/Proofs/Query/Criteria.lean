import LeaseLog.Proofs.Query.Selection
import LeaseLog.Proofs.Query.Simplification
import LeaseLog.Query.Criteria
import Mathlib.Tactic.MkIffOfInductiveProp

/-!
# What criteria ask for

Criteria become a condition, which is built with all simplifications, and an order of two keys.
Every field that is filled in narrows the rows down, and a field of a row that has several values
fits if one of them does.

Results:
1. `accepts_iff_fits`: a row meets the condition of criteria if and only if it fits every field that
   is filled in.
2. `compare_criteria`: criteria put earlier rows first, and of the rows of one time the lower
   versions.
-/

namespace LeaseLog.Criteria

/-! ## Definitions -/

/-- A row fits criteria field by field. A field that is not filled in asks for nothing. -/
@[mk_iff]
structure Fits (criteria : Criteria) (row : Row) : Prop where
  sourceIds : criteria.sourceIds = [] ∨ ∃ id ∈ row.sourceIds, id ∈ criteria.sourceIds
  stateIds : criteria.stateIds = [] ∨ ∃ state ∈ row.states, state.id ∈ criteria.stateIds
  minVersion : ∀ bound, criteria.minVersion = some bound →
    ∃ state ∈ row.states, bound.toNat ≤ state.version.toNat
  maxVersion : ∀ bound, criteria.maxVersion = some bound →
    ∃ state ∈ row.states, state.version.toNat ≤ bound.toNat
  notBefore : ∀ bound, criteria.notBefore = some bound →
    ∃ time, row.timestamp = some time ∧ (compare bound time).isLE
  notAfter : ∀ bound, criteria.notAfter = some bound →
    ∃ time, row.timestamp = some time ∧ (compare time bound).isLE
  dataTypes : criteria.dataTypes = [] ∨ ∃ type ∈ row.dataTypes, type ∈ criteria.dataTypes
  leaseScope : ∀ scope, criteria.leaseScope = some scope → ∃ lease ∈ row.leases, lease.scope = scope
  leaseLabel : ∀ label, criteria.leaseLabel = some label → ∃ lease ∈ row.leases, lease.label = label
  tags : ∀ tag ∈ criteria.tags, tag ∈ row.tags

/-! ## 1. The condition -/

namespace CriteriaLemmas

variable {β : Type} {P : Filter → Prop}

/-- A list asks for nothing if it is empty. -/
theorem forall_mem_list {items : List β} {condition : Filter} :
    (∀ filter ∈ (if items.isEmpty then [] else [condition]), P filter) ↔
      items = [] ∨ P condition := by
  cases items with
  | nil => simp
  | cons item items => simp

/-- A bound asks for nothing if there is none. -/
theorem forall_mem_bound {bound : Option β} {condition : β → Filter} :
    (∀ filter ∈ (bound.map condition).toList, P filter) ↔
      ∀ value, bound = some value → P (condition value) := by
  cases bound with
  | none => simp
  | some value => simp

theorem atLeast_version {version bound : Version} :
    Comparison.atLeast.holds version bound = true ↔ bound.toNat ≤ version.toNat :=
  Nat.isGE_compare

theorem atMost_version {version bound : Version} :
    Comparison.atMost.holds version bound = true ↔ version.toNat ≤ bound.toNat :=
  Nat.isLE_compare

theorem atLeast_instant {time bound : Instant} :
    Comparison.atLeast.holds time bound = true ↔ (compare bound time).isLE = true :=
  Std.OrientedCmp.isGE_iff_isLE

theorem atMost_instant {time bound : Instant} :
    Comparison.atMost.holds time bound = true ↔ (compare time bound).isLE = true :=
  Iff.rfl

theorem accepts_conditions {criteria : Criteria} {row : Row} :
    criteria.toQuery.filter.accepts row = true ↔
      ∀ filter ∈ criteria.conditions, filter.accepts row = true := by
  show (Filter.conjoin criteria.conditions).accepts row = true ↔ _
  rw [Filter.accepts_conjoin, List.all_eq_true, List.forall_mem_map]
  rfl

end CriteriaLemmas

open CriteriaLemmas

/-- The condition that criteria become, with everything left out that can be left out, is met by the
rows that fit. -/
theorem accepts_iff_fits {criteria : Criteria} {row : Row} :
    criteria.toQuery.filter.accepts row = true ↔ criteria.Fits row := by
  rw [accepts_conditions, fits_iff]
  simp only [conditions, List.forall_mem_append, forall_mem_list, forall_mem_bound,
    List.forall_mem_map, Filter.accepts, List.any_eq_true, Option.any_eq_true, decide_eq_true_eq,
    beq_iff_eq, atLeast_version, atMost_version, atLeast_instant, atMost_instant, and_assoc]

/-! ## 2. The order -/

/-- Earlier rows come first, and of the rows of one time those of lower versions. -/
theorem compare_criteria (criteria : Criteria) (a b : Row) :
    (Plan.of criteria.toQuery).compare a b =
      (compare a.timestamp b.timestamp).then
        (compare (a.states.head?.map Pointer.version) (b.states.head?.map Pointer.version)) := by
  show compareRows [⟨.timestamp, true⟩, ⟨.stateVersion, true⟩] a b = _
  rw [compareRows_cons, compareRows_cons]
  exact congrArg _ Ordering.then_eq

end LeaseLog.Criteria
