import Std.Data.ExtTreeMap

/-!
# Ordered sets

Finite sets of ordered items, listed in their order.
-/

namespace LeaseLog

/-- A finite set whose items are listed in order. -/
abbrev OrdSet (α : Type) [Ord α] : Type := Std.ExtTreeMap α Unit

namespace OrdSet

variable {α : Type} [Ord α] [Std.TransOrd α]

/-- The set with one more item. -/
def add (items : OrdSet α) (item : α) : OrdSet α := items.insert item ()

/-- The set without an item. -/
def remove (items : OrdSet α) (item : α) : OrdSet α := items.erase item

/-- The items in order. -/
def toList (items : OrdSet α) : List α := items.keys

/-- The set of listed items. -/
def ofItems (items : List α) : OrdSet α := items.foldl add (∅ : Std.ExtTreeMap α Unit)

end OrdSet

end LeaseLog
