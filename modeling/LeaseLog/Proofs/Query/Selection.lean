import LeaseLog.Query.Plan

/-!
# Selected rows

A plan keeps the rows that match, sorts them without moving ties, and cuts a page out. Rows are
compared key by key, upward or downward, and a field of a row may have no value or several ones.

Results:
1. `totalPreorder_compareRows`: by whatever keys rows are compared, sorting can rely on it.
2. `arranges_arrange`, `Arranges.unique`: a plan arranges rows in the only way in which they can be
   sorted with ties in input order.
3. `page_append`: two neighbouring pages are one page.
4. `select_stable_pages`: what follows for the items that a plan selects.
-/

namespace LeaseLog

/-! ## Definitions -/

/-- A comparison of rows that sorting can rely on: it looks at two rows from both sides alike, and
rows that compare equal are the only ones that may come in either order. -/
structure TotalPreorder (cmp : Row → Row → Ordering) : Prop where
  swap : ∀ a b, cmp b a = (cmp a b).swap
  total : ∀ a b, (cmp a b).isLE ∨ (cmp b a).isLE
  trans : ∀ a b c, (cmp a b).isLE → (cmp b c).isLE → (cmp a c).isLE
  antisymm : ∀ a b, (cmp a b).isLE → (cmp b a).isLE → cmp a b = .eq

namespace Plan

/-- How a plan compares two rows; without an order all rows tie. -/
def compare (plan : Plan) (a b : Row) : Ordering :=
  match plan.directions with
  | none => .eq
  | some directions => compareRows directions a b

/-- Whether a row ties with another one. -/
def ties {α : Type} (plan : Plan) (row : Row) (other : Row × α) : Bool :=
  (plan.compare row other.1).isEq

/-- A list has exactly the rows that match, in the order of the plan, and rows that tie are in input
order: whichever row is picked, those that tie with it come as they do in the input. -/
structure Arranges {α : Type} (plan : Plan) (rows arranged : List (Row × α)) : Prop where
  perm : arranged.Perm (rows.filter fun row => plan.filter.accepts row.1)
  sorted : arranged.Pairwise fun a b => (plan.compare a.1 b.1).isLE
  stable : ∀ row, arranged.filter (plan.ties row) =
    (rows.filter fun row => plan.filter.accepts row.1).filter (plan.ties row)

end Plan

/-! ## 1. Comparisons -/

instance SortKey.transCmp (key : SortKey) : Std.TransCmp key.compareRows :=
  match key with
  | .timestamp => inferInstanceAs (Std.TransCmp (compareOn Row.timestamp))
  | .sourceId => inferInstanceAs (Std.TransCmp (compareOn fun row : Row => row.sourceIds.head?))
  | .stateId =>
    inferInstanceAs (Std.TransCmp (compareOn fun row : Row => row.states.head?.map Pointer.id))
  | .stateVersion =>
    inferInstanceAs
      (Std.TransCmp (compareOn fun row : Row => row.states.head?.map Pointer.version))

/-- Downward, a key compares the second row with the first one. -/
theorem Direction.compareRows_downward (key : SortKey) :
    (⟨key, false⟩ : Direction).compareRows = fun a b => key.compareRows b a :=
  funext fun _ => funext fun _ => Std.OrientedCmp.eq_swap.symm

instance Direction.transCmp : (direction : Direction) → Std.TransCmp direction.compareRows
  | ⟨key, true⟩ => SortKey.transCmp key
  | ⟨key, false⟩ => by
    rw [compareRows_downward]
    exact Std.TransCmp.opposite

theorem compareRows_cons (direction : Direction) (directions : List Direction) :
    compareRows (direction :: directions) =
      compareLex direction.compareRows (compareRows directions) := by
  funext a b
  rw [compareRows, compareLex]
  cases direction.compareRows a b <;> rfl

instance compareRows_transCmp (directions : List Direction) :
    Std.TransCmp (compareRows directions) := by
  induction directions with
  | nil => exact { eq_swap := rfl, isLE_trans := fun _ _ => rfl }
  | cons direction directions _ =>
    rw [compareRows_cons]
    infer_instance

instance Plan.transCmp (plan : Plan) : Std.TransCmp plan.compare := by
  unfold Plan.compare
  cases plan.directions with
  | none => exact { eq_swap := rfl, isLE_trans := fun _ _ => rfl }
  | some directions => exact compareRows_transCmp directions

/-- Keys of falling significance, in any directions and with missing values, make a total
preorder. -/
theorem totalPreorder_compareRows (directions : List Direction) :
    TotalPreorder (compareRows directions) where
  swap _ _ := Std.OrientedCmp.eq_swap
  total a b := by
    have hswap : compareRows directions b a = (compareRows directions a b).swap :=
      Std.OrientedCmp.eq_swap
    rw [hswap]
    cases compareRows directions a b <;> simp
  trans _ _ _ := Std.TransCmp.isLE_trans
  antisymm _ _ := Std.OrientedCmp.isLE_antisymm

/-! ## 2. Arrangements -/

namespace SelectionLemmas

section

variable {α : Type} {plan : Plan} {rows left right : List (Row × α)}

theorem ties_iff {row : Row} {other : Row × α} :
    plan.ties row other = true ↔ plan.compare row other.1 = .eq :=
  Ordering.isEq_iff_eq_eq

theorem ties_self (row : Row × α) : plan.ties row.1 row = true :=
  ties_iff.mpr Std.ReflCmp.compare_self

/-- Rows that tie with one row tie with each other. -/
theorem isLE_of_ties {row : Row} {a b : Row × α} (ha : plan.ties row a = true)
    (hb : plan.ties row b = true) : (plan.compare a.1 b.1).isLE = true := by
  have heq : plan.compare a.1 b.1 = .eq :=
    Std.TransCmp.eq_trans (Std.OrientedCmp.eq_symm (ties_iff.mp ha)) (ties_iff.mp hb)
  rw [heq]
  rfl

theorem isLE_trans (a b c : Row × α) (hab : (plan.compare a.1 b.1).isLE = true)
    (hbc : (plan.compare b.1 c.1).isLE = true) : (plan.compare a.1 c.1).isLE = true :=
  Std.TransCmp.isLE_trans hab hbc

theorem isLE_total (a b : Row × α) :
    ((plan.compare a.1 b.1).isLE || (plan.compare b.1 a.1).isLE) = true := by
  have hswap : plan.compare b.1 a.1 = (plan.compare a.1 b.1).swap := Std.OrientedCmp.eq_swap
  rw [hswap]
  cases plan.compare a.1 b.1 <;> rfl

/-- A plan sorts the rows that match; without an order that leaves them as they are. -/
theorem arrange_eq : plan.arrange rows =
    (rows.filter fun row => plan.filter.accepts row.1).mergeSort
      fun a b => (plan.compare a.1 b.1).isLE := by
  unfold Plan.arrange Plan.matching Plan.compare
  cases plan.directions with
  | none =>
    exact (List.mergeSort_of_pairwise (List.pairwise_of_forall fun _ _ => rfl)).symm
  | some directions => rfl

/-- Sorting does not move the rows that tie with one row. -/
theorem filter_ties_mergeSort (row : Row) :
    (rows.mergeSort fun a b => (plan.compare a.1 b.1).isLE).filter (plan.ties row) =
      rows.filter (plan.ties row) := by
  have hties : (rows.filter (plan.ties row)).Pairwise
      fun a b => (plan.compare a.1 b.1).isLE = true :=
    List.pairwise_filter.mpr (List.pairwise_of_forall fun _ _ => isLE_of_ties)
  have hsublist : (rows.filter (plan.ties row)).Sublist
      (rows.mergeSort fun a b => (plan.compare a.1 b.1).isLE) :=
    List.sublist_mergeSort isLE_trans isLE_total hties List.filter_sublist
  have hkept := hsublist.filter (plan.ties row)
  rw [List.filter_filter, List.filter_congr fun _ _ => Bool.and_self _] at hkept
  refine (hkept.eq_of_length ?_).symm
  exact ((List.mergeSort_perm rows _).filter (plan.ties row)).length_eq.symm

/-- Two sorted lists of the same rows are equal if rows that tie come in the same order. -/
theorem eq_of_ties (hp : left.Perm right)
    (hl : left.Pairwise fun a b => (plan.compare a.1 b.1).isLE)
    (hr : right.Pairwise fun a b => (plan.compare a.1 b.1).isLE)
    (hs : ∀ row, left.filter (plan.ties row) = right.filter (plan.ties row)) : left = right := by
  induction left generalizing right with
  | nil => exact hp.nil_eq
  | cons a left ih =>
    cases right with
    | nil => exact absurd hp.eq_nil (List.cons_ne_nil a left)
    | cons b right =>
      obtain ⟨hla, hleft⟩ := List.pairwise_cons.mp hl
      obtain ⟨hrb, hright⟩ := List.pairwise_cons.mp hr
      -- both heads are smallest rows, so they tie
      have hab : (plan.compare a.1 b.1).isLE = true := by
        rcases List.mem_cons.mp (hp.mem_iff.mpr List.mem_cons_self) with rfl | hm
        · exact isLE_of_ties (ties_self b) (ties_self b)
        · exact hla b hm
      have hba : (plan.compare b.1 a.1).isLE = true := by
        rcases List.mem_cons.mp (hp.mem_iff.mp List.mem_cons_self) with rfl | hm
        · exact isLE_of_ties (ties_self a) (ties_self a)
        · exact hrb a hm
      have hties : plan.ties a.1 b = true := ties_iff.mpr (Std.OrientedCmp.isLE_antisymm hab hba)
      have hheads := hs a.1
      rw [List.filter_cons_of_pos (ties_self a), List.filter_cons_of_pos hties] at hheads
      obtain rfl := (List.cons.inj hheads).1
      congr 1
      refine ih ((List.perm_cons a).mp hp) hleft hright fun row => ?_
      have hrow := hs row
      rw [List.filter_cons, List.filter_cons] at hrow
      split at hrow
      · exact (List.cons.inj hrow).2
      · exact hrow

end

end SelectionLemmas

open SelectionLemmas

section

variable {α : Type} {plan : Plan} {rows arranged : List (Row × α)}

theorem arranges_arrange (plan : Plan) (rows : List (Row × α)) :
    plan.Arranges rows (plan.arrange rows) := by
  rw [arrange_eq]
  exact ⟨List.mergeSort_perm _ _, List.pairwise_mergeSort isLE_trans isLE_total _,
    filter_ties_mergeSort⟩

theorem Plan.Arranges.unique {other : List (Row × α)} (h : plan.Arranges rows arranged)
    (ho : plan.Arranges rows other) : other = arranged :=
  eq_of_ties (ho.perm.trans h.perm.symm) ho.sorted h.sorted fun row =>
    (ho.stable row).trans (h.stable row).symm

/-- Without an order all rows tie, so they stay as they are. -/
theorem Plan.Arranges.eq_matching (h : plan.Arranges rows arranged)
    (hd : plan.directions = none) : arranged = plan.matching rows := by
  have hties (row : Row) (other : Row × α) : plan.ties row other = true := by
    rw [ties_iff, Plan.compare, hd]
  have hkept := h.stable default
  rw [List.filter_eq_self.mpr fun other _ => hties _ other,
    List.filter_eq_self.mpr fun other _ => hties _ other] at hkept
  exact hkept

/-- Rows of an arrangement come in the order of the plan, and where they tie in any order that the
input has. -/
theorem Plan.Arranges.pairwise {R : Row × α → Row × α → Prop} (h : plan.Arranges rows arranged)
    (hr : rows.Pairwise R) : arranged.Pairwise fun a b =>
      plan.compare a.1 b.1 = .lt ∨ plan.compare a.1 b.1 = .eq ∧ R a b := by
  refine List.pairwise_iff_forall_sublist.mpr fun {a b} hab => ?_
  have hle : (plan.compare a.1 b.1).isLE = true := by
    simpa using h.sorted.sublist hab
  rcases Ordering.isLE_iff_eq_lt_or_eq_eq.mp hle with hlt | heq
  · exact .inl hlt
  · refine .inr ⟨heq, ?_⟩
    have htied := hab.filter (plan.ties a.1)
    rw [List.filter_cons_of_pos (ties_self a), List.filter_cons_of_pos (ties_iff.mpr heq),
      List.filter_nil, h.stable a.1] at htied
    have hinput : [a, b].Sublist rows := (htied.trans List.filter_sublist).trans List.filter_sublist
    exact List.pairwise_iff_forall_sublist.mp hr hinput

theorem map_page {α β : Type} {skip : Nat} {take : Option Nat} (f : α → β) (items : List α) :
    (Plan.page skip take items).map f = Plan.page skip take (items.map f) := by
  unfold Plan.page
  split
  · rw [List.map_drop]
  · rw [List.map_take, List.map_drop]

/-- Selecting does not look at the items. -/
theorem select_map {β : Type} (plan : Plan) (rows : List (Row × α)) (f : α → β) :
    plan.select (rows.map fun row => (row.1, f row.2)) = (plan.select rows).map f := by
  have harrange : plan.arrange (rows.map fun row => (row.1, f row.2)) =
      (plan.arrange rows).map fun row => (row.1, f row.2) := by
    rw [arrange_eq, arrange_eq, List.filter_map]
    refine (List.map_mergeSort ?_).symm
    exact fun _ _ _ _ => rfl
  rw [Plan.select, harrange, ← map_page, List.map_map, Plan.select, List.map_map]
  rfl

end

/-! ## 3. Pages -/

section

variable {α : Type} {skip : Nat} {take : Option Nat} {items : List α}

/-- A page leaves out the items that are skipped, and takes no more of the rest than it may. -/
theorem page_eq : Plan.page skip take items =
    (items.drop skip).take (take.getD items.length) := by
  unfold Plan.page
  split
  · rw [Option.getD_none, List.take_of_length_le]
    exact (items.drop_sublist skip).length_le
  · rfl

/-- A page has the items at the positions after those that are skipped. -/
theorem getElem?_page (position : Nat) : (Plan.page skip take items)[position]? =
    if take.all (position < ·) then items[skip + position]? else none := by
  unfold Plan.page
  split
  · rw [List.getElem?_drop]
    rfl
  · next count =>
    rw [List.getElem?_take, List.getElem?_drop]
    simp

theorem page_append (first second : Nat) :
    Plan.page skip (some first) items ++ Plan.page (skip + first) (some second) items =
      Plan.page skip (some (first + second)) items := by
  simp only [Plan.page]
  rw [List.take_add, List.drop_drop]

end

/-! ## 4. The result -/

/-- Every order compares rows by a total preorder. So there is exactly one list of the matching rows
that is in the order of a plan and keeps ties in input order, which is the input order altogether if
the plan has no order, and a plan selects the items at the positions of that list that its page
has. A page and the page behind it are together the page that is as long as both of them. -/
theorem select_stable_pages {α : Type} (plan : Plan) (rows : List (Row × α)) :
    (∀ directions, TotalPreorder (compareRows directions)) ∧
    (∃ arranged, plan.Arranges rows arranged ∧
      (∀ other, plan.Arranges rows other → other = arranged) ∧
      (plan.directions = none → arranged = plan.matching rows) ∧
      ∀ position, (plan.select rows)[position]? =
        if plan.take.all (position < ·) then arranged[plan.skip + position]?.map Prod.snd
        else none) ∧
    ∀ (query : Query) (skip first second : Nat),
      (Plan.of { query with skip := some skip, take := some first }).select rows ++
          (Plan.of { query with skip := some (skip + first), take := some second }).select rows =
        (Plan.of { query with skip := some skip, take := some (first + second) }).select rows := by
  refine ⟨totalPreorder_compareRows, ⟨plan.arrange rows, arranges_arrange plan rows,
    fun other ho => (arranges_arrange plan rows).unique ho,
    (arranges_arrange plan rows).eq_matching, fun position => ?_⟩,
    fun query skip first second => ?_⟩
  · rw [Plan.select, List.getElem?_map, getElem?_page]
    split <;> rfl
  · -- the three plans differ in their pages only, so they arrange the rows alike
    simp only [Plan.select, ← List.map_append]
    exact congrArg _ (page_append first second)

end LeaseLog
