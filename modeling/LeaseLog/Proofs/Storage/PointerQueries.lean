import LeaseLog.Proofs.Query.Criteria
import LeaseLog.Proofs.Storage.Lookups

/-!
# Listing the current states of entities

Everyday criteria list entities by what the log says about them now: their last source, their
version, the time of their last write, and their live leases and tags. On the way from the criteria
to the list there is a condition with its simplifications, a row for every entity, a sort by two
keys and a page.

Results:
1. `meets_iff_fits`: the row of an entity fits criteria if and only if the entity meets them.
2. `answers_arranged`, `Answers.unique`: sorting the rows that match gives the one answer to
   criteria.
3. `pointer_query_exact`: what an open session hands out is the page of that answer.
-/

namespace LeaseLog

/-! ## Definitions -/

/-- An entity meets criteria. A condition on leases is met by any live lease, and two conditions by
two leases if need be. An entity has no data type, so criteria that name one are met by none. -/
@[mk_iff]
structure Criteria.Meets (criteria : Criteria) (id : Ident) (entity : Entity) : Prop where
  sourceIds : criteria.sourceIds = [] ∨ entity.lastSource ∈ criteria.sourceIds
  stateIds : criteria.stateIds = [] ∨ id ∈ criteria.stateIds
  minVersion : ∀ bound, criteria.minVersion = some bound → bound.toNat ≤ entity.version.toNat
  maxVersion : ∀ bound, criteria.maxVersion = some bound → entity.version.toNat ≤ bound.toNat
  notBefore : ∀ bound, criteria.notBefore = some bound → (compare bound entity.updatedAt).isLE
  notAfter : ∀ bound, criteria.notAfter = some bound → (compare entity.updatedAt bound).isLE
  dataTypes : criteria.dataTypes = []
  leaseScope : ∀ scope, criteria.leaseScope = some scope →
    ∃ lease ∈ entity.leases, lease.scope = scope
  leaseLabel : ∀ label, criteria.leaseLabel = some label →
    ∃ lease ∈ entity.leases, lease.label = label
  tags : ∀ tag ∈ criteria.tags, tag ∈ entity.tags

namespace LogState

/-- One entity was written last before another one; or at the same time, and it has a lower version;
or the same version, and it was created before the other one. -/
def ListedBefore (state : LogState) (a b : Ident × Entity) : Prop :=
  compare a.2.updatedAt b.2.updatedAt = .lt ∨
    a.2.updatedAt = b.2.updatedAt ∧ (a.2.version.toNat < b.2.version.toNat ∨
      a.2.version = b.2.version ∧ state.created.idxOf a.1 < state.created.idxOf b.1)

/-- A list has exactly the entities of a log that meet criteria, in the order in which entities are
listed. -/
structure Answers (state : LogState) (criteria : Criteria) (listed : List (Ident × Entity)) :
    Prop where
  complete : ∀ id entity,
    (id, entity) ∈ listed ↔ state.entity? id = some entity ∧ criteria.Meets id entity
  ordered : listed.Pairwise state.ListedBefore

end LogState

/-! ## 1. The row of an entity -/

namespace PointerQueryLemmas

variable {state : LogState} {criteria : Criteria}

/-- The row by which an entity is listed. -/
def pointerRow (entity : Ident × Entity) : Row :=
  Listing.entityRow entity.1 entity.2 entity.2.leases.toList entity.2.tags.toList

/-- The entities of a log with their rows, in the order of creation. -/
def entityRows (state : LogState) : List (Row × (Ident × Entity)) :=
  state.entityList.map fun entity => (pointerRow entity, entity)

theorem meets_iff_fits {id : Ident} {entity : Entity} :
    criteria.Meets id entity ↔ criteria.Fits (pointerRow (id, entity)) := by
  rw [Criteria.meets_iff, Criteria.fits_iff]
  simp [pointerRow, Listing.entityRow]

/-- The listing has the current states in the places of the entities. -/
theorem pointerRows_eq : Listing.pointerRows state =
    (entityRows state).map fun row => (row.1, ⟨row.2.1, row.2.2.version⟩) := by
  rw [entityRows, List.map_map]
  rfl

theorem mem_entityList (hc : state.Coherent) {id : Ident} {entity : Entity} :
    (id, entity) ∈ state.entityList ↔ state.entity? id = some entity := by
  rw [LogState.entityList, List.mem_filterMap]
  constructor
  · rintro ⟨other, -, hmap⟩
    obtain ⟨found, hfound, heq⟩ := Option.map_eq_some_iff.mp hmap
    cases heq
    exact hfound
  · intro he
    exact ⟨id, (hc.mem_created id).mpr (he ▸ rfl), he ▸ rfl⟩

/-- Entities are listed in the order of creation. -/
theorem pairwise_entityList (hc : state.Coherent) : state.entityList.Pairwise fun a b =>
    state.created.idxOf a.1 < state.created.idxOf b.1 := by
  have hcreated : state.created.Pairwise fun a b =>
      state.created.idxOf a < state.created.idxOf b := by
    refine List.pairwise_iff_getElem.mpr fun i j hi hj hlt => ?_
    rwa [hc.nodup_created.idxOf_getElem, hc.nodup_created.idxOf_getElem]
  rw [← LeaseIndexLemmas.entityList_ids hc, List.pairwise_map,
    LeaseIndexLemmas.entityList_ids hc] at hcreated
  exact hcreated

end PointerQueryLemmas

open PointerQueryLemmas

/-! ## 2. The answer -/

section

variable {state : LogState} {criteria : Criteria}

/-- Criteria put the rows of entities in the order of their last writes and versions. -/
theorem listedBefore_iff (criteria : Criteria) {a b : Ident × Entity} : state.ListedBefore a b ↔
    (Plan.of criteria.toQuery).compare (pointerRow a) (pointerRow b) = .lt ∨
      (Plan.of criteria.toQuery).compare (pointerRow a) (pointerRow b) = .eq ∧
        state.created.idxOf a.1 < state.created.idxOf b.1 := by
  have hrows : (Plan.of criteria.toQuery).compare (pointerRow a) (pointerRow b) =
      (compare a.2.updatedAt b.2.updatedAt).then (compare a.2.version b.2.version) :=
    Criteria.compare_criteria criteria (pointerRow a) (pointerRow b)
  have hversions : compare a.2.version b.2.version = .lt ↔
      a.2.version.toNat < b.2.version.toNat := Nat.compare_eq_lt
  rw [hrows, LogState.ListedBefore, Ordering.then_eq_lt, Ordering.then_eq_eq, hversions,
    Std.LawfulEqCmp.compare_eq_iff_eq, Std.LawfulEqCmp.compare_eq_iff_eq, and_or_left, or_assoc,
    and_assoc]

theorem LogState.ListedBefore.asymm {a b : Ident × Entity} (h : state.ListedBefore a b) :
    ¬ state.ListedBefore b a := by
  have hswap : (Plan.of Criteria.any.toQuery).compare (pointerRow b) (pointerRow a) =
      ((Plan.of Criteria.any.toQuery).compare (pointerRow a) (pointerRow b)).swap :=
    Std.OrientedCmp.eq_swap
  rw [listedBefore_iff .any, hswap, Ordering.swap_eq_lt, Ordering.swap_eq_eq]
  rcases (listedBefore_iff .any).mp h with hlt | ⟨heq, hcreated⟩
  · simp [hlt]
  · simp only [heq, reduceCtorEq, false_or, true_and]
    exact Nat.lt_asymm hcreated

/-- What a plan makes of the rows of a log is an answer. -/
theorem answers_arranged (hc : state.Coherent) {arranged : List (Row × (Ident × Entity))}
    (h : (Plan.of criteria.toQuery).Arranges (entityRows state) arranged) :
    state.Answers criteria (arranged.map Prod.snd) := by
  have hmem {row : Row} {entity : Ident × Entity} : (row, entity) ∈ arranged ↔
      (pointerRow entity = row ∧ entity ∈ state.entityList) ∧ criteria.Fits row := by
    rw [h.perm.mem_iff, List.mem_filter, entityRows, List.mem_map]
    show _ ∧ criteria.toQuery.filter.accepts row = true ↔ _
    rw [Criteria.accepts_iff_fits]
    refine and_congr_left fun _ => ⟨?_, fun ⟨hrow, hm⟩ => ⟨entity, hm, Prod.ext hrow rfl⟩⟩
    rintro ⟨other, hm, heq⟩
    cases heq
    exact ⟨rfl, hm⟩
  constructor
  · intro id entity
    rw [List.mem_map, meets_iff_fits, ← mem_entityList hc]
    constructor
    · rintro ⟨⟨row, found⟩, hm, rfl⟩
      obtain ⟨⟨rfl, hlisted⟩, hfits⟩ := hmem.mp hm
      exact ⟨hlisted, hfits⟩
    · rintro ⟨hlisted, hfits⟩
      exact ⟨(pointerRow (id, entity), (id, entity)), hmem.mpr ⟨⟨rfl, hlisted⟩, hfits⟩, rfl⟩
  · have hinput : (entityRows state).Pairwise fun a b =>
        state.created.idxOf a.2.1 < state.created.idxOf b.2.1 :=
      List.pairwise_map.mpr (pairwise_entityList hc)
    refine List.pairwise_map.mpr ((h.pairwise hinput).imp_of_mem fun {a b} ha hb hab => ?_)
    rw [listedBefore_iff criteria, (hmem.mp ha).1.1, (hmem.mp hb).1.1]
    exact hab

/-- Criteria have one answer. -/
theorem LogState.Answers.unique {listed other : List (Ident × Entity)}
    (h : state.Answers criteria listed) (ho : state.Answers criteria other) : other = listed := by
  have hnodup {answer : List (Ident × Entity)} (ha : state.Answers criteria answer) :
      answer.Nodup :=
    ha.ordered.imp fun {a b} hp (heq : a = b) => hp.asymm (heq ▸ hp)
  have hperm : other.Perm listed :=
    (List.perm_ext_iff_of_nodup (hnodup ho) (hnodup h)).mpr fun entity =>
      (ho.complete entity.1 entity.2).trans (h.complete entity.1 entity.2).symm
  exact hperm.eq_of_pairwise (fun _ _ _ _ hab hba => absurd hba hab.asymm)
    ho.ordered h.ordered

/-- What criteria select from the current states is a page of their answer. -/
theorem exists_answer (hc : state.Coherent) : ∃ listed, state.Answers criteria listed ∧
    Listing.snapshot .pointers state (.of criteria.toQuery) =
      ((listed.drop (criteria.skip.getD 0)).take (criteria.take.getD listed.length)).map
        fun entity => ⟨entity.1, entity.2.version⟩ := by
  have harranges := arranges_arrange (Plan.of criteria.toQuery) (entityRows state)
  refine ⟨_, answers_arranged hc harranges, ?_⟩
  show (Plan.of criteria.toQuery).select (Listing.pointerRows state) = _
  let current (entity : Ident × Entity) : Pointer := ⟨entity.1, entity.2.version⟩
  rw [pointerRows_eq, select_map _ _ current, Plan.select, map_page, page_eq]
  rfl

end

/-! ## 3. The result -/

/-- Through an open session whose token is not cancelled, criteria list the current states of
exactly those entities of a reachable log that meet them, in the order of last writes, versions and
creation, without as many of the first ones as are to be skipped, and no more of the rest than are
to be taken. -/
theorem pointer_query_exact {storage : Storage} {index : Nat} {session : Session} {token : Token}
    (hs : storage.sessions[index]? = some session) (ho : session.closed = false)
    (hr : (storage.stateOf session.engine).Reachable)
    (ht : token.isCancelled storage.spend.now = false) (criteria : Criteria) :
    ∃ listed, (storage.stateOf session.engine).Answers criteria listed ∧
      (∀ other, (storage.stateOf session.engine).Answers criteria other → other = listed) ∧
      storage.Lists index .pointers criteria.toQuery token
        (((listed.drop (criteria.skip.getD 0)).take (criteria.take.getD listed.length)).map
          fun entity => ⟨entity.1, entity.2.version⟩) := by
  obtain ⟨listed, hanswers, hsnapshot⟩ := exists_answer (coherent_of_reachable hr)
  refine ⟨listed, hanswers, fun other => hanswers.unique, ?_⟩
  rw [← hsnapshot]
  exact lists_snapshot hs ho ht .pointers criteria.toQuery

/-- In the log in which a lease was moved, the entity that was created second has the lower version
and comes first. It is the only one with a lease of that scope. -/
theorem pointer_query_exact_moved :
    let first : Pointer := ⟨.ofNat 1, (Version.ofNat? 2).getD .zero⟩
    let second : Pointer := ⟨.ofNat 2, (Version.ofNat? 1).getD .zero⟩
    exMovedShop.sessions[0]? = some ⟨0, .reader, false⟩ ∧ exMoved.Reachable ∧
    Token.never.isCancelled exMovedShop.spend.now = false ∧
    exMovedShop.Lists 0 .pointers Criteria.any.toQuery .never [second, first] ∧
    exMovedShop.Lists 0 .pointers { Criteria.any with skip := some 1 }.toQuery .never [first] ∧
    exMovedShop.Lists 0 .pointers { Criteria.any with leaseScope := some "room" }.toQuery .never
      [second] := by
  intro first second
  have hs : exMovedShop.sessions[0]? = some ⟨0, .reader, false⟩ := rfl
  have hr : exMoved.Reachable := .commit _ (.commit _ .empty)
  have ht : Token.never.isCancelled exMovedShop.spend.now = false := rfl
  let older := (exMoved.entity? (.ofNat 1)).getD default
  let newer := (exMoved.entity? (.ofNat 2)).getD default
  have hlist : exMoved.entityList = [(.ofNat 1, older), (.ofNat 2, newer)] := by decide
  have hmem (id : Ident) (entity : Entity) : exMoved.entity? id = some entity ↔
      (id, entity) = (.ofNat 1, older) ∨ (id, entity) = (.ofNat 2, newer) := by
    rw [← mem_entityList (coherent_of_reachable hr), hlist, List.mem_cons, List.mem_singleton]
  have hboth (criteria : Criteria) (h : ∀ id entity, criteria.Meets id entity) :
      exMoved.Answers criteria [(.ofNat 2, newer), (.ofNat 1, older)] := by
    constructor
    · intro id entity
      rw [hmem, List.mem_cons, List.mem_singleton, or_comm]
      exact (and_iff_left (h id entity)).symm
    · exact List.pairwise_pair.mpr (.inr ⟨by decide, .inl (by decide)⟩)
  have hblue : (⟨"room", "name", "blue"⟩ : Lease) ∈ newer.leases := by decide
  have hnone : older.leases.toList = [] := by decide
  have hroom : exMoved.Answers { Criteria.any with leaseScope := some "room" }
      [(.ofNat 2, newer)] := by
    refine ⟨fun id entity => ?_, List.pairwise_singleton _ _⟩
    rw [hmem, List.mem_singleton]
    constructor
    · rintro ⟨rfl, rfl⟩
      refine ⟨.inr rfl, (Criteria.meets_iff _ _ _).mpr ?_⟩
      simpa [Criteria.any] using ⟨_, hblue, rfl⟩
    · rintro ⟨⟨rfl, rfl⟩ | hnewer, hmeets⟩
      · obtain ⟨lease, hm, -⟩ := hmeets.leaseScope "room" rfl
        rw [← OrdSet.mem_toList, hnone] at hm
        exact absurd hm List.not_mem_nil
      · exact hnewer
  have hlists (criteria : Criteria) (listed : List (Ident × Entity))
      (h : exMoved.Answers criteria listed) : exMovedShop.Lists 0 .pointers criteria.toQuery .never
        (((listed.drop (criteria.skip.getD 0)).take (criteria.take.getD listed.length)).map
          fun entity => ⟨entity.1, entity.2.version⟩) := by
    obtain ⟨answer, -, hunique, hlists⟩ := pointer_query_exact hs rfl hr ht criteria
    rwa [← hunique listed h] at hlists
  have hany (skip : Option Nat) (id : Ident) (entity : Entity) :
      { Criteria.any with skip }.Meets id entity :=
    (Criteria.meets_iff _ _ _).mpr (by simp [Criteria.any])
  exact ⟨hs, hr, ht, hlists _ _ (hboth _ (hany none)), hlists _ _ (hboth _ (hany (some 1))),
    hlists _ _ hroom⟩

end LeaseLog
