import LeaseLog.Proofs.Query.Selection
import Mathlib.Data.List.Pairwise

/-!
# Reversed queries

To reverse a query is to turn every key of its order round, however deep the keys are nested. A key
that was missed would show only among rows that tie on the keys before it. Rows that tie on all keys
stay in input order both ways, so a reversed query has the reverse list only if no two rows tie.

Results:
1. `compare_reversed`: a reversed query compares two rows as the query compares them the other way
   round; `reversed_reversed`: reversing twice changes nothing.
2. `arrange_reversed`, `select_reversed`: rows of which no two tie are selected the other way round.
3. `reversed_mirrors_selection`: so the reversed query selects the reverse list.
-/

namespace LeaseLog

/-! ## 1. The order -/

theorem Direction.compareRows_flip (direction : Direction) (a b : Row) :
    direction.flip.compareRows a b = direction.compareRows b a := by
  have hswap : direction.key.compareRows b a = (direction.key.compareRows a b).swap :=
    Std.OrientedCmp.eq_swap
  obtain ⟨key, ascending⟩ := direction
  cases ascending with
  | true => exact hswap.symm
  | false =>
    show key.compareRows a b = (key.compareRows b a).swap
    rw [hswap, Ordering.swap_swap]

namespace Order

theorem directions_reversed (order : Order) :
    order.reversed.directions = order.directions.map Direction.flip := by
  induction order with
  | «by» key ascending => rfl
  | andThen first next ihFirst ihNext =>
    rw [reversed, directions, directions, ihFirst, ihNext, List.map_append]

theorem reversed_reversed (order : Order) : order.reversed.reversed = order := by
  induction order with
  | «by» key ascending => rw [reversed, reversed, Bool.not_not]
  | andThen first next ihFirst ihNext => rw [reversed, reversed, ihFirst, ihNext]

end Order

/-- Keys that are all turned round compare two rows as before, but the other way round. -/
theorem compareRows_flip (directions : List Direction) (a b : Row) :
    compareRows (directions.map Direction.flip) a b = compareRows directions b a := by
  induction directions with
  | nil => rfl
  | cons direction directions ih =>
    rw [List.map_cons, compareRows, compareRows, Direction.compareRows_flip, ih]

namespace Query

theorem compare_reversed (query : Query) (a b : Row) :
    (Plan.of query.reversed).compare a b = (Plan.of query).compare b a := by
  obtain ⟨filter, order, skip, take, options⟩ := query
  cases order with
  | none => rfl
  | some order =>
    show compareRows order.reversed.directions a b = compareRows order.directions b a
    rw [Order.directions_reversed, compareRows_flip]

theorem reversed_reversed (query : Query) : query.reversed.reversed = query := by
  have hinvolutive : Order.reversed ∘ Order.reversed = id := funext Order.reversed_reversed
  obtain ⟨filter, order, skip, take, options⟩ := query
  simp only [reversed, Option.map_map, hinvolutive, Option.map_id_fun, id]

end Query

/-! ## 2. Rows that do not tie -/

section

variable {α : Type} {query : Query} {rows : List (Row × α)}

/-- If no two rows tie, two rows that tie are the same one. -/
theorem eq_of_tied {plan : Plan} (hne : rows.Pairwise fun a b => plan.compare a.1 b.1 ≠ .eq)
    {a b : Row × α} (ha : a ∈ rows) (hb : b ∈ rows) (heq : plan.compare a.1 b.1 = .eq) : a = b := by
  have hsymm : Std.Symm fun a b : Row × α => plan.compare a.1 b.1 ≠ .eq :=
    ⟨fun _ _ hab hba => hab (Std.OrientedCmp.eq_symm hba)⟩
  exact Classical.byContradiction fun hdistinct => hne.forall ha hb hdistinct heq

/-- If no two matching rows tie, there is only one way to put them in order. -/
theorem arrange_eq_of_sorted {plan : Plan} {arranged : List (Row × α)}
    (hne : (plan.matching rows).Pairwise fun a b => plan.compare a.1 b.1 ≠ .eq)
    (hperm : arranged.Perm (plan.matching rows))
    (hsorted : arranged.Pairwise fun a b => (plan.compare a.1 b.1).isLE) :
    plan.arrange rows = arranged := by
  have harranges := arranges_arrange plan rows
  refine List.Perm.eq_of_pairwise (fun a b ha hb hab hba => ?_) harranges.sorted hsorted
    (harranges.perm.trans hperm.symm)
  exact eq_of_tied hne (harranges.perm.mem_iff.mp ha) (hperm.mem_iff.mp hb)
    (Std.OrientedCmp.isLE_antisymm hab hba)

/-- If no two matching rows tie, a reversed query arranges them the other way round. -/
theorem arrange_reversed (hne : ((Plan.of query).matching rows).Pairwise fun a b =>
      (Plan.of query).compare a.1 b.1 ≠ .eq) :
    (Plan.of query.reversed).arrange rows = ((Plan.of query).arrange rows).reverse := by
  have harranges := arranges_arrange (Plan.of query) rows
  have hreversed : ((Plan.of query.reversed).matching rows).Pairwise fun a b =>
      (Plan.of query.reversed).compare a.1 b.1 ≠ .eq := by
    refine hne.imp fun {a b} hab hba => hab ?_
    rw [Query.compare_reversed] at hba
    exact Std.OrientedCmp.eq_symm hba
  refine arrange_eq_of_sorted hreversed ((List.reverse_perm _).trans harranges.perm) ?_
  refine List.pairwise_reverse.mpr (harranges.sorted.imp fun {a b} hab => ?_)
  rwa [Query.compare_reversed]

/-- If nothing is cut off and no two matching rows tie, a reversed query selects the reverse list. -/
theorem select_reversed (hskip : query.skip.getD 0 = 0) (htake : query.take = none)
    (hne : ((Plan.of query).matching rows).Pairwise fun a b =>
      (Plan.of query).compare a.1 b.1 ≠ .eq) :
    (Plan.of query.reversed).select rows = ((Plan.of query).select rows).reverse := by
  have hpage (items : List (Row × α)) :
      Plan.page (query.skip.getD 0) query.take items = items := by
    rw [hskip, htake, Plan.page, List.drop_zero]
  show (Plan.page (query.skip.getD 0) query.take _).map Prod.snd =
    ((Plan.page (query.skip.getD 0) query.take _).map Prod.snd).reverse
  rw [hpage, hpage, arrange_reversed hne, List.map_reverse]

end

/-! ## 3. The result -/

/-- A reversed query compares rows as the query does the other way round, and reversing it again
gives the same plan. If nothing is cut off and no two matching rows tie, which they do without an
order, the reversed query selects exactly the reverse list. -/
theorem reversed_mirrors_selection (query : Query) :
    (∀ a b, (Plan.of query.reversed).compare a b = (Plan.of query).compare b a) ∧
    Plan.of query.reversed.reversed = Plan.of query ∧
    ∀ {α : Type} (rows : List (Row × α)), query.skip.getD 0 = 0 → query.take = none →
      (((Plan.of query).matching rows).Pairwise fun a b =>
        (Plan.of query).compare a.1 b.1 ≠ .eq) →
      (Plan.of query.reversed).select rows = ((Plan.of query).select rows).reverse := by
  refine ⟨query.compare_reversed, by rw [query.reversed_reversed], ?_⟩
  intro α rows hskip htake hne
  exact select_reversed hskip htake hne

/-- Four rows: one has no values, and the others are of one time. -/
def exRows : List (Row × Nat) :=
  let row (entity version : Nat) : Row :=
    { (default : Row) with
      timestamp := some default
      states := [⟨.ofNat entity, (Version.ofNat? version).getD .zero⟩] }
  [(row 1 2, 0), (default, 1), (row 2 1, 2), (row 1 1, 3)]

/-- By time, of one time by entity downward, and of one entity by version. -/
def exKeys : Query :=
  let order : Order :=
    .andThen (.by .timestamp true) (.andThen (.by .stateId false) (.by .stateVersion true))
  ⟨.all, some order, none, none, none⟩

/-- All three keys turn round, and the row without values comes last. -/
theorem reversed_mirrors_selection_nested :
    (((Plan.of exKeys).matching exRows).Pairwise fun a b =>
      (Plan.of exKeys).compare a.1 b.1 ≠ .eq) ∧
    (Plan.of exKeys).select exRows = [1, 2, 3, 0] ∧
    (Plan.of exKeys.reversed).select exRows = [0, 3, 2, 1] := by
  have hne : ((Plan.of exKeys).matching exRows).Pairwise fun a b =>
      (Plan.of exKeys).compare a.1 b.1 ≠ .eq := by decide
  have harrange : (Plan.of exKeys).arrange exRows = [1, 2, 3, 0].filterMap (exRows[·]?) :=
    arrange_eq_of_sorted hne (by decide) (by decide)
  have hselect : (Plan.of exKeys).select exRows = [1, 2, 3, 0] := by
    rw [Plan.select, harrange]
    rfl
  obtain ⟨-, -, hmirror⟩ := reversed_mirrors_selection exKeys
  refine ⟨hne, hselect, ?_⟩
  rw [hmirror exRows rfl rfl hne, hselect]
  rfl

end LeaseLog
