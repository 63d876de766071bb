import LeaseLog.OrdSet
import Mathlib.Tactic.Tauto

/-!
# Membership in ordered sets

An ordered set is determined by what it contains, so every fact about one is a fact about
membership.
-/

namespace LeaseLog

namespace OrdSet

variable {α : Type} [Ord α] [Std.TransOrd α] [Std.LawfulEqOrd α]

@[simp] theorem mem_add {items : OrdSet α} {item x : α} :
    x ∈ items.add item ↔ x = item ∨ x ∈ items := by
  simp only [add, Std.ExtTreeMap.mem_insert, Std.LawfulEqCmp.compare_eq_iff_eq]
  rw [eq_comm]

@[simp] theorem mem_remove {items : OrdSet α} {item x : α} :
    x ∈ items.remove item ↔ x ≠ item ∧ x ∈ items := by
  simp only [remove, Std.ExtTreeMap.mem_erase, ne_eq, Std.LawfulEqCmp.compare_eq_iff_eq]
  rw [eq_comm]

@[simp] theorem mem_toList {items : OrdSet α} {x : α} : x ∈ items.toList ↔ x ∈ items :=
  Std.ExtTreeMap.mem_keys

@[simp] theorem mem_foldl_add {added : List α} {items : OrdSet α} {x : α} :
    x ∈ added.foldl add items ↔ x ∈ added ∨ x ∈ items := by
  induction added generalizing items with
  | nil => simp
  | cons item added ih =>
    simp only [List.foldl_cons, ih, mem_add, List.mem_cons]
    tauto

@[simp] theorem mem_foldl_remove {removed : List α} {items : OrdSet α} {x : α} :
    x ∈ removed.foldl remove items ↔ x ∉ removed ∧ x ∈ items := by
  induction removed generalizing items with
  | nil => simp
  | cons item removed ih =>
    simp only [List.foldl_cons, ih, mem_remove, List.mem_cons]
    tauto

end OrdSet

end LeaseLog
