/-!
# Leases and tags

A lease is a `(scope, label, value)` triple that at most one entity holds at a time. A tag is a
`(label, value)` pair that any number of entities may carry. Both are ordered field by field, and
texts are ordered by code point, which is the order of their UTF-8 bytes.
-/

namespace LeaseLog

/-- A `(scope, label, value)` binding that one entity at a time may hold. -/
structure Lease where
  scope : String
  label : String
  value : String
deriving DecidableEq, Repr, Inhabited

/-- A `(label, value)` annotation that any entity may carry. -/
structure Tag where
  label : String
  value : String
deriving DecidableEq, Repr, Inhabited

namespace Lease

/-- Scope first, then label, then value. -/
def order : Lease → Lease → Ordering :=
  compareLex (compareOn scope) (compareLex (compareOn label) (compareOn value))

instance : Ord Lease := ⟨order⟩

instance : Std.TransOrd Lease :=
  inferInstanceAs
    (Std.TransCmp (compareLex (compareOn scope) (compareLex (compareOn label) (compareOn value))))

instance : Std.LawfulEqOrd Lease where
  compare_self :=
    (inferInstance : Std.ReflCmp
      (compareLex (compareOn scope) (compareLex (compareOn label) (compareOn value)))).compare_self
  eq_of_compare {a b} same := by
    change order a b = .eq at same
    simp only [order, compareLex, compareOn, Ordering.then_eq_eq,
      Std.LawfulEqCmp.compare_eq_iff_eq] at same
    cases a; cases b; simp_all

/-- The form `scope/label=value`. -/
def toText (lease : Lease) : String := lease.scope ++ "/" ++ lease.label ++ "=" ++ lease.value

end Lease

namespace Tag

/-- Label first, then value. -/
def order : Tag → Tag → Ordering := compareLex (compareOn label) (compareOn value)

instance : Ord Tag := ⟨order⟩

instance : Std.TransOrd Tag :=
  inferInstanceAs (Std.TransCmp (compareLex (compareOn label) (compareOn value)))

instance : Std.LawfulEqOrd Tag where
  compare_self :=
    (inferInstance : Std.ReflCmp
      (compareLex (compareOn label) (compareOn value))).compare_self
  eq_of_compare {a b} same := by
    change order a b = .eq at same
    simp only [order, compareLex, compareOn, Ordering.then_eq_eq,
      Std.LawfulEqCmp.compare_eq_iff_eq] at same
    cases a; cases b; simp_all

/-- The form `label=value`. -/
def toText (tag : Tag) : String := tag.label ++ "=" ++ tag.value

/-- Reads `label=value`; the first equals sign ends the label. -/
def ofText? (text : String) : Option Tag :=
  let cs := text.toList
  match cs.dropWhile (· ≠ '=') with
  | '=' :: value => some ⟨String.ofList (cs.takeWhile (· ≠ '=')), String.ofList value⟩
  | _ => none

end Tag

end LeaseLog
