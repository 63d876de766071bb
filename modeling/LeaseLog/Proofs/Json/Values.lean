import LeaseLog.Json.Basic
import LeaseLog.Proofs.Json.Numbers

/-!
# Values that can be printed and read

A value is legible if its numbers are numbers of a text. Printing and reading a legible value
changes its floating point numbers at most: it keeps the shape, the depth and the order of members.

Results:
1. `Json.induction`: induction on values, with a hypothesis for every item and member.
2. `Json.reread` and what it keeps: `legible_reread`, `sorted_reread`, `height_reread`.
3. `Json.reread_of_integral`: a value without floating point numbers is not changed.
-/

namespace LeaseLog.Json

/-! ## Definitions -/

mutual

/-- Whether all numbers of a value pass a check. -/
def NumbersAll (p : Number → Prop) : Json → Prop
  | .number value => p value
  | .array items => ItemsAll p items
  | .object members => MembersAll p members
  | .null | .bool _ | .string _ => True

/-- Whether all numbers of items pass a check. -/
def ItemsAll (p : Number → Prop) : List Json → Prop
  | [] => True
  | item :: items => item.NumbersAll p ∧ ItemsAll p items

/-- Whether all numbers of members pass a check. -/
def MembersAll (p : Number → Prop) : List (String × Json) → Prop
  | [] => True
  | (_, value) :: members => value.NumbersAll p ∧ MembersAll p members

end

/-- Whether all numbers of a value are numbers of a text. -/
def Legible (value : Json) : Prop := value.NumbersAll Number.Valid

/-- Whether all numbers of a value are integers of 64 bits. -/
def Integral (value : Json) : Prop :=
  value.NumbersAll fun number => number.Valid ∧ ∃ value, number = .integer value

/-- Members in the order of their names, each name once. -/
def SortedNames (members : List (String × Json)) : Prop :=
  members.Pairwise fun a b => compare a.1 b.1 = .lt

mutual

/-- Whether all objects of a value have their members in order. -/
def Sorted : Json → Prop
  | .array items => ItemsSorted items
  | .object members => SortedNames members ∧ MembersSorted members
  | .null | .bool _ | .number _ | .string _ => True

/-- Whether all objects of items have their members in order. -/
def ItemsSorted : List Json → Prop
  | [] => True
  | item :: items => item.Sorted ∧ ItemsSorted items

/-- Whether all objects of the values of members have their members in order. -/
def MembersSorted : List (String × Json) → Prop
  | [] => True
  | (_, value) :: members => value.Sorted ∧ MembersSorted members

end

mutual

/-- What a value is read as once it was printed. -/
def reread : Json → Json
  | .null => .null
  | .bool value => .bool value
  | .number value => .number value.reread
  | .string value => .string value
  | .array items => .array (rereadItems items)
  | .object members => .object (rereadMembers members)

/-- What items are read as once they were printed. -/
def rereadItems : List Json → List Json
  | [] => []
  | item :: items => item.reread :: rereadItems items

/-- What members are read as once they were printed. -/
def rereadMembers : List (String × Json) → List (String × Json)
  | [] => []
  | (name, value) :: members => (name, value.reread) :: rereadMembers members

end

/-! ## 1. Induction on values -/

/-- A property of a value that the properties of its items and members imply. -/
@[elab_as_elim]
theorem induction {motive : Json → Prop} (null : motive .null)
    (bool : ∀ value, motive (.bool value)) (number : ∀ value, motive (.number value))
    (string : ∀ value, motive (.string value))
    (array : ∀ items, (∀ item ∈ items, motive item) → motive (.array items))
    (object : ∀ members, (∀ member ∈ members, motive member.2) → motive (.object members))
    (value : Json) : motive value :=
  @Json.rec motive (fun items => ∀ item ∈ items, motive item)
    (fun members => ∀ member ∈ members, motive member.2) (fun member => motive member.2)
    null bool number string array object (fun _ h => absurd h List.not_mem_nil)
    (fun _ _ hitem hitems => List.forall_mem_cons.mpr ⟨hitem, hitems⟩)
    (fun _ h => absurd h List.not_mem_nil)
    (fun _ _ hmember hmembers => List.forall_mem_cons.mpr ⟨hmember, hmembers⟩)
    (fun _ _ hvalue => hvalue) value

/-! ### Items and members -/

section

variable {p : Number → Prop} {items : List Json} {members : List (String × Json)} {depth : Nat}

theorem numbersAll_array : (array items).NumbersAll p ↔ ∀ item ∈ items, item.NumbersAll p := by
  rw [NumbersAll]
  induction items with
  | nil => simp [ItemsAll]
  | cons item items ih => rw [ItemsAll, ih, List.forall_mem_cons]

theorem numbersAll_object :
    (object members).NumbersAll p ↔ ∀ member ∈ members, member.2.NumbersAll p := by
  rw [NumbersAll]
  induction members with
  | nil => simp [MembersAll]
  | cons member members ih => rw [MembersAll, ih, List.forall_mem_cons]

theorem sorted_array : (array items).Sorted ↔ ∀ item ∈ items, item.Sorted := by
  rw [Sorted]
  induction items with
  | nil => simp [ItemsSorted]
  | cons item items ih => rw [ItemsSorted, ih, List.forall_mem_cons]

theorem membersSorted_iff : MembersSorted members ↔ ∀ member ∈ members, member.2.Sorted := by
  induction members with
  | nil => simp [MembersSorted]
  | cons member members ih => rw [MembersSorted, ih, List.forall_mem_cons]

theorem sorted_object :
    (object members).Sorted ↔ SortedNames members ∧ ∀ member ∈ members, member.2.Sorted := by
  rw [Sorted, membersSorted_iff]

theorem rereadItems_eq_map (items : List Json) : rereadItems items = items.map reread := by
  induction items with
  | nil => rfl
  | cons item items ih => rw [rereadItems, ih, List.map_cons]

theorem rereadMembers_eq_map (members : List (String × Json)) :
    rereadMembers members = members.map fun member => (member.1, member.2.reread) := by
  induction members with
  | nil => rfl
  | cons member members ih => rw [rereadMembers, ih, List.map_cons]

theorem reread_array : (array items).reread = .array (items.map reread) := by
  rw [reread, rereadItems_eq_map]

theorem reread_object :
    (object members).reread = .object (members.map fun member => (member.1, member.2.reread)) := by
  rw [reread, rereadMembers_eq_map]

theorem itemsHeight_le : itemsHeight items ≤ depth ↔ ∀ item ∈ items, item.height ≤ depth := by
  induction items with
  | nil => simp [itemsHeight]
  | cons item items ih => rw [itemsHeight, Nat.max_le, ih, List.forall_mem_cons]

theorem membersHeight_le :
    membersHeight members ≤ depth ↔ ∀ member ∈ members, member.2.height ≤ depth := by
  induction members with
  | nil => simp [membersHeight]
  | cons member members ih => rw [membersHeight, Nat.max_le, ih, List.forall_mem_cons]

theorem height_array_le :
    (array items).height ≤ depth + 1 ↔ ∀ item ∈ items, item.height ≤ depth := by
  rw [height, Nat.add_le_add_iff_right, itemsHeight_le]

theorem height_object_le :
    (object members).height ≤ depth + 1 ↔ ∀ member ∈ members, member.2.height ≤ depth := by
  rw [height, Nat.add_le_add_iff_right, membersHeight_le]

end

/-! ## 2. Values printed and read -/

theorem NumbersAll.imp {p q : Number → Prop} (h : ∀ number, p number → q number) {value : Json}
    (hvalue : value.NumbersAll p) : value.NumbersAll q := by
  induction value using Json.induction with
  | null | bool _ | string _ => trivial
  | number value => exact h value hvalue
  | array items ih =>
    rw [numbersAll_array] at hvalue ⊢
    exact fun item hitem => ih item hitem (hvalue item hitem)
  | object members ih =>
    rw [numbersAll_object] at hvalue ⊢
    exact fun member hmember => ih member hmember (hvalue member hmember)

theorem Integral.legible {value : Json} (h : value.Integral) : value.Legible :=
  NumbersAll.imp (fun _ => And.left) h

theorem legible_reread {value : Json} (h : value.Legible) : value.reread.Legible := by
  induction value using Json.induction with
  | null | bool _ | string _ => trivial
  | number value => exact Number.Valid.reread h
  | array items ih =>
    rw [Legible, numbersAll_array] at h
    rw [reread_array, Legible, numbersAll_array, List.forall_mem_map]
    exact fun item hitem => ih item hitem (h item hitem)
  | object members ih =>
    rw [Legible, numbersAll_object] at h
    rw [reread_object, Legible, numbersAll_object, List.forall_mem_map]
    exact fun member hmember => ih member hmember (h member hmember)

theorem sortedNames_reread {members : List (String × Json)} :
    SortedNames (members.map fun member => (member.1, member.2.reread)) ↔ SortedNames members := by
  rw [SortedNames, List.pairwise_map]
  rfl

theorem sorted_reread {value : Json} (h : value.Sorted) : value.reread.Sorted := by
  induction value using Json.induction with
  | null | bool _ | string _ | number _ => trivial
  | array items ih =>
    rw [sorted_array] at h
    rw [reread_array, sorted_array, List.forall_mem_map]
    exact fun item hitem => ih item hitem (h item hitem)
  | object members ih =>
    rw [sorted_object] at h
    rw [reread_object, sorted_object, sortedNames_reread, List.forall_mem_map]
    exact ⟨h.1, fun member hmember => ih member hmember (h.2 member hmember)⟩

@[simp] theorem height_reread (value : Json) : value.reread.height = value.height := by
  induction value using Json.induction with
  | null | bool _ | string _ | number _ => rfl
  | array items ih =>
    rw [reread_array, height, height]
    congr 1
    induction items with
    | nil => rfl
    | cons item items ihItems =>
      rw [List.map_cons, itemsHeight, itemsHeight, ih item List.mem_cons_self,
        ihItems fun other hother => ih other (List.mem_cons_of_mem _ hother)]
  | object members ih =>
    rw [reread_object, height, height]
    congr 1
    induction members with
    | nil => rfl
    | cons member members ihMembers =>
      rw [List.map_cons, membersHeight, membersHeight, ih member List.mem_cons_self,
        ihMembers fun other hother => ih other (List.mem_cons_of_mem _ hother)]

/-! ## 3. Values without floating point numbers -/

/-- A value whose numbers are integers is read as itself. -/
theorem reread_of_integral {value : Json} (h : value.Integral) : value.reread = value := by
  induction value using Json.induction with
  | null | bool _ | string _ => rfl
  | number value =>
    obtain ⟨hvalid, integer, rfl⟩ := h
    rw [reread, Number.reread_integer hvalid]
  | array items ih =>
    rw [Integral, numbersAll_array] at h
    have hsame : items.map reread = items.map id :=
      List.map_congr_left fun item hitem => ih item hitem (h item hitem)
    rw [reread_array, hsame, List.map_id]
  | object members ih =>
    rw [Integral, numbersAll_object] at h
    have hsame : members.map (fun member => (member.1, member.2.reread)) = members.map id :=
      List.map_congr_left fun member hmember =>
        congrArg (Prod.mk member.1) (ih member hmember (h member hmember))
    rw [reread_object, hsame, List.map_id]

end LeaseLog.Json
