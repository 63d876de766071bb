import LeaseLog.Query.Filter

/-!
# Simplified conditions

Conditions are built from the inside out, and every step leaves something out: a double negation, a
part that every row meets, a list around a single part. What a step leaves out depends on what the
steps inside of it made, and `and` and `or` are treated differently: an `and` drops the parts that
every row meets, an `or` with such a part is met by every row. An empty `and` is met by every row,
an empty `or` stays as it is and is met by none.

Results:
1. `accepts_simplify`: a row meets what was built if and only if it meets the condition as written.
2. `simplified_simplify`: what was built has nothing left that could be left out.
3. `simplify_meaning_stable`: so building it again changes nothing.
-/

namespace LeaseLog.Filter

/-! ## Definitions -/

/-- A condition that is not made of other conditions. -/
def IsSimple : Filter → Prop
  | .not _ | .and _ | .or _ => False
  | .all | .sourceIdIn _ | .timestamp _ _ | .dataTypeIn _ | .stateIdIn _ | .stateVersion _ _
  | .lease _ | .leaseScope _ | .leaseLabel _ | .leaseValue _ | .tag _ | .tagLabel _
  | .tagValue _ => True

/-- No part of a list of conditions is met by every row just because it says so. -/
def Telling (filters : List Filter) : Prop := ∀ filter ∈ filters, filter.isAll = false

/-- A condition from which nothing can be left out. -/
inductive Simplified : Filter → Prop
  | simple {filter : Filter} : filter.IsSimple → Simplified filter
  | not {filter : Filter} : Simplified filter → (∀ inner, filter ≠ .not inner) →
      Simplified (.not filter)
  | and {filters : List Filter} : (∀ filter ∈ filters, Simplified filter) → Telling filters →
      2 ≤ filters.length → Simplified (.and filters)
  /-- A list without a part is kept. -/
  | or {filters : List Filter} : (∀ filter ∈ filters, Simplified filter) → Telling filters →
      filters.length ≠ 1 → Simplified (.or filters)

/-! ## Helpers -/

/-- A property of a condition that the properties of its parts imply. -/
@[elab_as_elim]
theorem induction {motive : Filter → Prop} (simple : ∀ filter, filter.IsSimple → motive filter)
    (not : ∀ filter, motive filter → motive (.not filter))
    (and : ∀ filters, (∀ filter ∈ filters, motive filter) → motive (.and filters))
    (or : ∀ filters, (∀ filter ∈ filters, motive filter) → motive (.or filters))
    (filter : Filter) : motive filter :=
  @Filter.rec motive (fun filters => ∀ filter ∈ filters, motive filter)
    (simple _ trivial) not and or (fun _ => simple _ trivial) (fun _ _ => simple _ trivial)
    (fun _ => simple _ trivial) (fun _ => simple _ trivial) (fun _ _ => simple _ trivial)
    (fun _ => simple _ trivial) (fun _ => simple _ trivial) (fun _ => simple _ trivial)
    (fun _ => simple _ trivial) (fun _ => simple _ trivial) (fun _ => simple _ trivial)
    (fun _ => simple _ trivial) (fun _ h => absurd h List.not_mem_nil)
    (fun _ _ hfilter hfilters => List.forall_mem_cons.mpr ⟨hfilter, hfilters⟩) filter

namespace SimplificationLemmas

variable {row : Row} {filter : Filter} {filters : List Filter}

theorem allAccept_eq : allAccept row filters = (filters.map (accepts row)).all id := by
  induction filters with
  | nil => rfl
  | cons filter filters ih => rw [allAccept, ih, List.map_cons, List.all_cons, id]

theorem anyAccepts_eq : anyAccepts row filters = (filters.map (accepts row)).any id := by
  induction filters with
  | nil => rfl
  | cons filter filters ih => rw [anyAccepts, ih, List.map_cons, List.any_cons, id]

theorem simplifyList_eq : simplifyList filters = filters.map simplify := by
  induction filters with
  | nil => rfl
  | cons filter filters ih => rw [simplifyList, ih, List.map_cons]

theorem isAll_iff : filter.isAll = true ↔ filter = .all := by
  cases filter <;> simp [isAll]

theorem simplify_of_isSimple (h : filter.IsSimple) : filter.simplify = filter := by
  cases filter <;> first | rfl | exact h.elim

theorem simplifyList_of_forall (h : ∀ filter ∈ filters, filter.simplify = filter) :
    simplifyList filters = filters := by
  rw [simplifyList_eq, List.map_congr_left h]
  exact List.map_id filters

theorem map_accepts_simplify
    (h : ∀ filter ∈ filters, filter.simplify.accepts row = filter.accepts row) :
    (filters.map simplify).map (accepts row) = filters.map (accepts row) := by
  rw [List.map_map]
  exact List.map_congr_left h

theorem telling_filter : Telling (filters.filter (!·.isAll)) := by
  intro filter hm
  simpa using (List.mem_filter.mp hm).2

theorem filter_eq_self_of_telling (h : Telling filters) : filters.filter (!·.isAll) = filters :=
  List.filter_eq_self.mpr fun filter hm => by rw [h filter hm, Bool.not_false]

theorem any_isAll_eq_false : filters.any isAll = false ↔ Telling filters := by
  rw [List.any_eq_false, Telling]
  simp only [Bool.not_eq_true]

end SimplificationLemmas

open SimplificationLemmas

/-! ## 1. Meaning -/

section

variable {row : Row} {filters : List Filter}

theorem accepts_negate (filter : Filter) : filter.negate.accepts row = !filter.accepts row := by
  unfold negate
  split
  · rw [accepts, Bool.not_not]
  · rw [accepts]

/-- The parts that every row meets do not matter for all of them. -/
theorem all_accepts_filter : ((filters.filter (!·.isAll)).map (accepts row)).all id =
    (filters.map (accepts row)).all id := by
  induction filters with
  | nil => rfl
  | cons filter filters ih =>
    cases hall : filter.isAll with
    | false =>
      rw [List.filter_cons_of_pos (by rw [hall, Bool.not_false])]
      simp only [List.map_cons, List.all_cons, ih]
    | true =>
      rw [List.filter_cons_of_neg (by rw [hall]; decide), ih]
      cases isAll_iff.mp hall
      simp only [List.map_cons, List.all_cons, accepts, id, Bool.true_and]

theorem accepts_conjoin :
    (conjoin filters).accepts row = (filters.map (accepts row)).all id := by
  rw [← all_accepts_filter]
  unfold conjoin
  split
  · next h => rw [h, accepts, List.map_nil, List.all_nil]
  · next filter h =>
    rw [h, List.map_cons, List.all_cons, List.map_nil, List.all_nil, Bool.and_true, id]
  · rw [accepts, allAccept_eq]

theorem accepts_disjoin :
    (disjoin filters).accepts row = (filters.map (accepts row)).any id := by
  unfold disjoin
  split
  · next h =>
    obtain ⟨filter, hm, hall⟩ := List.any_eq_true.mp h
    cases isAll_iff.mp hall
    have htrue : true ∈ filters.map (accepts row) := List.mem_map.mpr ⟨.all, hm, rfl⟩
    rw [accepts, List.any_eq_true.mpr ⟨true, htrue, rfl⟩]
  · split
    · rw [List.map_cons, List.any_cons, List.map_nil, List.any_nil, Bool.or_false, id]
    · rw [accepts, anyAccepts_eq]

end

/-- A row meets the condition that was built if and only if it meets the one that was written. -/
theorem accepts_simplify (row : Row) (filter : Filter) :
    filter.simplify.accepts row = filter.accepts row := by
  induction filter using induction with
  | simple filter h => rw [simplify_of_isSimple h]
  | not filter ih => rw [simplify, accepts_negate, ih, accepts]
  | and filters ih =>
    rw [simplify, accepts_conjoin, simplifyList_eq, map_accepts_simplify ih, accepts, allAccept_eq]
  | or filters ih =>
    rw [simplify, accepts_disjoin, simplifyList_eq, map_accepts_simplify ih, accepts,
      anyAccepts_eq]

/-! ## 2. What was built -/

section

variable {filter : Filter} {filters : List Filter}

theorem simplified_negate (h : filter.Simplified) : filter.negate.Simplified := by
  unfold negate
  split
  · cases h with
    | simple hs => exact hs.elim
    | not hinner _ => exact hinner
  · next hnot => exact .not h hnot

theorem simplified_conjoin (h : ∀ filter ∈ filters, filter.Simplified) :
    (conjoin filters).Simplified := by
  have hparts : ∀ filter ∈ filters.filter (!·.isAll), filter.Simplified :=
    fun filter hm => h filter (List.mem_filter.mp hm).1
  have htelling : Telling (filters.filter (!·.isAll)) := telling_filter
  unfold conjoin
  generalize filters.filter (!·.isAll) = parts at hparts htelling ⊢
  match parts with
  | [] => exact .simple trivial
  | [filter] => exact hparts filter (List.mem_singleton_self filter)
  | _ :: _ :: rest => exact .and hparts htelling (Nat.le_add_left 2 rest.length)

theorem simplified_disjoin (h : ∀ filter ∈ filters, filter.Simplified) :
    (disjoin filters).Simplified := by
  unfold disjoin
  split
  · exact .simple trivial
  · next hall =>
    have htelling : Telling filters := any_isAll_eq_false.mp (Bool.eq_false_iff.mpr hall)
    match filters with
    | [] => exact .or h htelling Nat.zero_ne_one
    | [filter] => exact h filter (List.mem_singleton_self filter)
    | _ :: _ :: rest => exact .or h htelling (Nat.succ_ne_succ_iff.mpr (Nat.succ_ne_zero _))

end

/-- Nothing is left in the condition that was built that could be left out. -/
theorem simplified_simplify (filter : Filter) : filter.simplify.Simplified := by
  induction filter using induction with
  | simple filter h =>
    rw [simplify_of_isSimple h]
    exact .simple h
  | not filter ih => rw [simplify]; exact simplified_negate ih
  | and filters ih =>
    rw [simplify, simplifyList_eq]
    exact simplified_conjoin (List.forall_mem_map.mpr ih)
  | or filters ih =>
    rw [simplify, simplifyList_eq]
    exact simplified_disjoin (List.forall_mem_map.mpr ih)

/-! ## 3. The result -/

section

variable {filter : Filter} {filters : List Filter}

theorem negate_of_ne (h : ∀ inner, filter ≠ .not inner) : filter.negate = .not filter := by
  unfold negate
  split
  · next inner => exact absurd rfl (h inner)
  · rfl

theorem conjoin_of_telling (h : Telling filters) (hlength : 2 ≤ filters.length) :
    conjoin filters = .and filters := by
  unfold conjoin
  rw [filter_eq_self_of_telling h]
  split
  · simp at hlength
  · simp at hlength
  · rfl

theorem disjoin_of_telling (h : Telling filters) (hlength : filters.length ≠ 1) :
    disjoin filters = .or filters := by
  unfold disjoin
  rw [any_isAll_eq_false.mpr h, if_neg Bool.false_ne_true]
  split
  · exact absurd rfl hlength
  · rfl

/-- Building a condition again from which nothing can be left out changes nothing. -/
theorem Simplified.simplify (h : filter.Simplified) : filter.simplify = filter := by
  induction h with
  | simple hs => exact simplify_of_isSimple hs
  | not _ hnot ih => rw [Filter.simplify, ih, negate_of_ne hnot]
  | and _ htelling hlength ih =>
    rw [Filter.simplify, simplifyList_of_forall ih, conjoin_of_telling htelling hlength]
  | or _ htelling hlength ih =>
    rw [Filter.simplify, simplifyList_of_forall ih, disjoin_of_telling htelling hlength]

end

/-- However conditions are nested, the one that is built from the inside out is met by the same rows
as the one that was written, and building it again gives the same condition. -/
theorem simplify_meaning_stable (filter : Filter) :
    (∀ row, filter.simplify.accepts row = filter.accepts row) ∧
      filter.simplify.simplify = filter.simplify :=
  ⟨fun row => accepts_simplify row filter, (simplified_simplify filter).simplify⟩

/-- What a step made is left out by the steps around it. -/
example (tag : Tag) :
    simplify (.not (.not (.and [.or [.all, .tag tag], .or [.tag tag]]))) = .tag tag :=
  rfl

end LeaseLog.Filter
