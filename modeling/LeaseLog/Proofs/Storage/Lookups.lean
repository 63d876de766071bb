import LeaseLog.Proofs.Storage.Bootstrap
import LeaseLog.Query.Criteria

/-!
# Lookups and listings of leases

Who holds a lease can be asked in three ways. The log has an index. A lookup goes through the
entities and stops at the first one that has the lease in its set. The listing of leases goes
through the index and drops a lease whose holder is missing. Through an open session of a reachable
log all of them say the same.

Results:
1. `lists_snapshot`: an open session hands out what a plan selects, in order, and then the end.
2. `mem_leaseRows_iff`: the rows of the listing are those of the live leases.
3. `lease_lookups_agree`: the lookup, the listing and the index agree.
-/

namespace LeaseLog

/-! ## Definitions -/

/-- A session lists some items: however many entries are asked for, the items come in order, and
then the end. -/
def Storage.Lists (storage : Storage) (index : Nat) (listing : Listing) (query : Query)
    (token : Token) (items : List listing.Item) : Prop :=
  ∀ count, (storage.ask index (.list listing query token count)).1 =
    .entries listing ((List.range count).map fun position => items[position]?.map .ok)

/-- Every row meets the condition of the query, and nothing is cut off. -/
structure Query.TakesAll (query : Query) : Prop where
  accepts : ∀ row, query.filter.accepts row = true
  skip : query.skip.getD 0 = 0
  take : query.take = none

/-! ## 1. What an open session hands out -/

namespace LookupLemmas

variable {storage : Storage} {listing : Listing} {token : Token}

/-- A listing that looked at the log hands out its items one by one. -/
theorem pull_items (ht : token.isCancelled storage.now = false) (items : List listing.Item)
    (count : Nat) : ((Scan.running (items.map .ok)).pull token count storage).1 =
      (List.range count).map fun position => items[position]?.map .ok := by
  induction count generalizing items with
  | zero => rfl
  | succ count ih =>
    rw [List.range_succ_eq_map, List.map_cons, List.map_map]
    cases items with
    | nil =>
      have hend : (Scan.running ([] : List (Entry listing))).poll token storage =
          (none, .running [], storage) := rfl
      simp only [List.map_nil, Scan.pull, hend]
      exact congrArg (none :: ·) (ih [])
    | cons item items =>
      have hitem : (Scan.running (.ok item :: items.map .ok)).poll token storage =
          (some (.ok item), .running (items.map .ok), storage) := by
        simp only [Scan.poll, Scan.touch, Scan.entries, Scan.next, ht, Bool.false_eq_true,
          if_false]
      simp only [List.map_cons, Scan.pull, hitem]
      exact congrArg (some (.ok item) :: ·) (ih items)

/-- The log is looked at when the first entry is asked for. -/
theorem pull_requested (engine : Nat) (plan : Plan) (count : Nat) :
    ((Scan.requested engine plan (.ok ()) : Scan listing).pull token count storage).1 =
      ((Scan.running ((listing.snapshot (storage.stateOf engine) plan).map .ok)).pull token count
        storage.spend).1 := by
  cases count <;> rfl

end LookupLemmas

open LookupLemmas

/-- An open session hands out what the plan of a query selects from the log of its engine, in order,
and then the end. -/
theorem lists_snapshot {storage : Storage} {index : Nat} {session : Session} {token : Token}
    (hs : storage.sessions[index]? = some session) (ho : session.closed = false)
    (ht : token.isCancelled storage.spend.now = false) (listing : Listing) (query : Query) :
    storage.Lists index listing query token
      (listing.snapshot (storage.stateOf session.engine) (.of query)) := by
  intro count
  have hopen : session.ensureOpen = .ok () := by
    rw [Session.ensureOpen, ho]
    rfl
  simp only [Storage.ask, Store.scan, hs, hopen]
  rw [pull_requested, pull_items ht]

/-! ## 2. The rows of the listing -/

namespace LookupLemmas

variable {state : LogState}

theorem mem_leaseRows_iff {row : Row} {record : LeaseRecord} :
    (row, record) ∈ Listing.leaseRows state ↔
      ∃ entity, state.leaseHolder record.lease = some record.state.id ∧
        state.entity? record.state.id = some entity ∧ record.state.version = entity.version ∧
        row = Listing.entityRow record.state.id entity [record.lease] [] := by
  rw [Listing.leaseRows, List.mem_filterMap]
  constructor
  · rintro ⟨⟨lease, holder⟩, hm, hrow⟩
    obtain ⟨entity, he, heq⟩ := Option.map_eq_some_iff.mp hrow
    cases heq
    exact ⟨entity, Std.ExtTreeMap.mem_toList_iff_getElem?_eq_some.mp hm, he, rfl, rfl⟩
  · rintro ⟨entity, hl, he, hv, rfl⟩
    have hm : (record.lease, record.state.id) ∈ state.leaseList :=
      Std.ExtTreeMap.mem_toList_iff_getElem?_eq_some.mpr hl
    refine ⟨_, hm, Option.map_eq_some_iff.mpr ⟨entity, he, ?_⟩⟩
    rw [← hv]

/-- No lease has two rows. -/
theorem nodup_leaseRows (hc : state.Coherent) :
    ((Listing.leaseRows state).map fun row => row.2.lease).Nodup := by
  have hleases : (Listing.leaseRows state).map (fun row => row.2.lease) =
      state.leaseList.map Prod.fst := by
    rw [← LeaseIndexLemmas.leaseRows_leases hc, List.map_map]
    rfl
  rw [hleases, LogState.leaseList, List.Nodup, List.pairwise_map]
  exact Std.ExtTreeMap.distinct_keys_toList.imp fun hne heq => by simp [heq] at hne

/-- The current state of a holder is that of an entity. -/
theorem pointerOf?_eq_some_iff (hc : state.Coherent) {lease : Lease} {pointer : Pointer} :
    state.pointerOf? lease = some pointer ↔
      ∃ entity, state.leaseHolder lease = some pointer.id ∧
        state.entity? pointer.id = some entity ∧ pointer.version = entity.version := by
  constructor
  · intro hp
    obtain ⟨holder, hl, rfl⟩ := Option.map_eq_some_iff.mp hp
    obtain ⟨entity, he, -⟩ := (hc.index lease holder).mp hl
    exact ⟨entity, hl, he, by rw [LogState.versionOf, he]⟩
  · rintro ⟨entity, hl, he, hv⟩
    simp only [LogState.pointerOf?, hl, Option.map_some, LogState.versionOf, he, ← hv]

/-- The first row of a lease is that of its holder. -/
theorem find?_leaseRows (hc : state.Coherent) (lease : Lease) :
    ((Listing.leaseRows state).find? fun row => decide (lease ∈ row.1.leases)).map Prod.snd =
      (state.pointerOf? lease).map fun pointer => ⟨lease, pointer⟩ := by
  cases hf : (Listing.leaseRows state).find? fun row => decide (lease ∈ row.1.leases) with
  | none =>
    cases hp : state.pointerOf? lease with
    | none => rfl
    | some pointer =>
      -- the holder exists, so the lease has a row
      obtain ⟨entity, hl, he, hv⟩ := (pointerOf?_eq_some_iff hc).mp hp
      let row := Listing.entityRow pointer.id entity [lease] []
      have hm : (row, (⟨lease, pointer⟩ : LeaseRecord)) ∈ Listing.leaseRows state :=
        mem_leaseRows_iff.mpr ⟨entity, hl, he, hv, rfl⟩
      exact absurd (List.find?_eq_none.mp hf _ hm) (by simp [row, Listing.entityRow])
  | some found =>
    obtain ⟨row, record⟩ := found
    have hd : lease ∈ row.leases := by simpa using List.find?_some hf
    obtain ⟨entity, hl, he, hv, rfl⟩ := mem_leaseRows_iff.mp (List.mem_of_find?_eq_some hf)
    cases List.mem_singleton.mp hd
    rw [(pointerOf?_eq_some_iff hc).mpr ⟨entity, hl, he, hv⟩]
    rfl

/-- A plan that takes everything only changes the order. -/
theorem select_perm {α : Type} {query : Query} (h : query.TakesAll) (rows : List (Row × α)) :
    ((Plan.of query).select rows).Perm (rows.map Prod.snd) := by
  have hmatching : (Plan.of query).matching rows = rows :=
    List.filter_eq_self.mpr fun row _ => h.accepts row.1
  have harrange : ((Plan.of query).arrange rows).Perm rows := by
    unfold Plan.arrange
    rw [hmatching]
    split
    · exact .refl rows
    · exact List.mergeSort_perm rows _
  have hpage : Plan.page (Plan.of query).skip (Plan.of query).take ((Plan.of query).arrange rows) =
      (Plan.of query).arrange rows := by
    show Plan.page (query.skip.getD 0) query.take _ = _
    rw [h.skip, h.take, Plan.page, List.drop_zero]
  rw [Plan.select, hpage]
  exact harrange.map Prod.snd

end LookupLemmas

/-- A lookup of a lease among the leases selects its record, and nothing if nobody holds it. -/
theorem snapshot_leases_ofLease {state : LogState} (hc : state.Coherent) (lease : Lease) :
    Listing.snapshot .leases state (.of (.ofLease lease)) =
      ((state.pointerOf? lease).map fun pointer => ⟨lease, pointer⟩).toList := by
  rw [← find?_leaseRows hc, ← List.head?_filter]
  show ((((Listing.leaseRows state).filter fun row =>
    Filter.accepts row.1 (.lease lease)).drop 0).take 1).map Prod.snd = _
  rw [List.drop_zero, List.take_one]
  simp only [Filter.accepts]
  cases ((Listing.leaseRows state).filter fun row => decide (lease ∈ row.1.leases)).head? <;> rfl

/-- A query that takes everything selects every live lease once, with the current state of its
holder. -/
theorem snapshot_leases_takesAll {state : LogState} (hc : state.Coherent) {query : Query}
    (h : query.TakesAll) :
    ((Listing.snapshot .leases state (.of query)).map LeaseRecord.lease).Nodup ∧
      ∀ record, record ∈ Listing.snapshot .leases state (.of query) ↔
        state.pointerOf? record.lease = some record.state := by
  have hperm : (Listing.snapshot .leases state (.of query)).Perm
      ((Listing.leaseRows state).map Prod.snd) := select_perm h (Listing.leaseRows state)
  refine ⟨(hperm.map LeaseRecord.lease).nodup_iff.mpr ?_, fun record => ?_⟩
  · rw [List.map_map]
    exact nodup_leaseRows hc
  · rw [hperm.mem_iff, List.mem_map, pointerOf?_eq_some_iff hc]
    constructor
    · rintro ⟨⟨row, record⟩, hm, rfl⟩
      obtain ⟨entity, hl, he, hv, -⟩ := mem_leaseRows_iff.mp hm
      exact ⟨entity, hl, he, hv⟩
    · rintro ⟨entity, hl, he, hv⟩
      exact ⟨(_, record), mem_leaseRows_iff.mpr ⟨entity, hl, he, hv, rfl⟩, rfl⟩

/-! ## 3. The lookup, the listing and the index -/

/-- Through an open session whose token is not cancelled, the lookup of a lease, the listing of
leases and the index of a reachable log agree. If nobody holds a lease, both lookups are empty. If
an entity holds it, it exists, and the lookups give its current state and the record of the lease
with that state. A listing that takes everything, in any order, gives every lease of the index once,
with the current state of its holder. -/
theorem lease_lookups_agree {storage : Storage} {index : Nat} {session : Session} {token : Token}
    (hs : storage.sessions[index]? = some session) (ho : session.closed = false)
    (hr : (storage.stateOf session.engine).Reachable)
    (ht : token.isCancelled storage.spend.now = false) :
    let state := storage.stateOf session.engine
    (∀ lease, state.leaseHolder lease = none →
      storage.Lists index .pointers (.ofLease lease) token [] ∧
        storage.Lists index .leases (.ofLease lease) token []) ∧
    (∀ lease holder, state.leaseHolder lease = some holder →
      ∃ entity, state.entity? holder = some entity ∧
        storage.Lists index .pointers (.ofLease lease) token [⟨holder, entity.version⟩] ∧
        storage.Lists index .leases (.ofLease lease) token
          [⟨lease, ⟨holder, entity.version⟩⟩]) ∧
    ∀ query : Query, query.TakesAll →
      ∃ records : List LeaseRecord, storage.Lists index .leases query token records ∧
        (records.map LeaseRecord.lease).Nodup ∧
        ∀ record, record ∈ records ↔
          ∃ entity, state.leaseHolder record.lease = some record.state.id ∧
            state.entity? record.state.id = some entity ∧
            record.state.version = entity.version := by
  intro state
  have hc : state.Coherent := coherent_of_reachable hr
  have hpointers (lease : Lease) : storage.Lists index .pointers (.ofLease lease) token
      (state.pointerOf? lease).toList := by
    rw [← snapshot_ofLease hc]
    exact lists_snapshot hs ho ht .pointers (.ofLease lease)
  have hleases (lease : Lease) : storage.Lists index .leases (.ofLease lease) token
      ((state.pointerOf? lease).map fun pointer => ⟨lease, pointer⟩).toList := by
    rw [← snapshot_leases_ofLease hc]
    exact lists_snapshot hs ho ht .leases (.ofLease lease)
  refine ⟨fun lease hl => ?_, fun lease holder hl => ?_, fun query htakes => ?_⟩
  · have hp : state.pointerOf? lease = none := by rw [LogState.pointerOf?, hl, Option.map_none]
    specialize hpointers lease
    specialize hleases lease
    rw [hp] at hpointers hleases
    exact ⟨hpointers, hleases⟩
  · obtain ⟨entity, he, -⟩ := (hc.index lease holder).mp hl
    have hp : state.pointerOf? lease = some ⟨holder, entity.version⟩ :=
      (pointerOf?_eq_some_iff hc).mpr ⟨entity, hl, he, rfl⟩
    specialize hpointers lease
    specialize hleases lease
    rw [hp] at hpointers hleases
    exact ⟨entity, he, hpointers, hleases⟩
  · obtain ⟨hnodup, hmem⟩ := snapshot_leases_takesAll hc htakes
    exact ⟨_, lists_snapshot hs ho ht .leases query, hnodup,
      fun record => (hmem record).trans (pointerOf?_eq_some_iff hc)⟩

/-- A session on a log in which a lease was moved from one entity to another one. -/
def exMovedShop : Storage := ((Storage.empty.addEngine ⟨exMoved, 0⟩).2.addSession 0 .reader).2

/-- The lookups find the second entity, and everyday criteria that ask for nothing list the lease
with it. -/
theorem lease_lookups_agree_moved :
    let room : Lease := ⟨"room", "name", "blue"⟩
    let holder : Pointer := ⟨.ofNat 2, (Version.ofNat? 1).getD .zero⟩
    exMovedShop.Lists 0 .pointers (.ofLease room) .never [holder] ∧
    exMovedShop.Lists 0 .leases (.ofLease room) .never [⟨room, holder⟩] ∧
    exMovedShop.Lists 0 .leases (.ofLease ⟨"room", "name", "red"⟩) .never [] ∧
    Criteria.any.toQuery.TakesAll ∧
    ∃ records, exMovedShop.Lists 0 .leases Criteria.any.toQuery .never records ∧
      (⟨room, holder⟩ : LeaseRecord) ∈ records := by
  intro room holder
  have hs : exMovedShop.sessions[0]? = some ⟨0, .reader, false⟩ := rfl
  have hr : (exMovedShop.stateOf 0).Reachable := .commit _ (.commit _ .empty)
  have ht : Token.never.isCancelled exMovedShop.spend.now = false := rfl
  have htakes : Criteria.any.toQuery.TakesAll := ⟨fun _ => rfl, rfl, rfl⟩
  have hl : exMoved.leaseHolder room = some (.ofNat 2) := by decide
  have hversion : (exMoved.entity? (.ofNat 2)).map Entity.version = some holder.version := by decide
  obtain ⟨hfree, hheld, hall⟩ := lease_lookups_agree hs rfl hr ht
  obtain ⟨entity, he, hpointers, hleases⟩ := hheld room (.ofNat 2) hl
  obtain ⟨records, hlists, -, hmem⟩ := hall Criteria.any.toQuery htakes
  have hv : entity.version = holder.version := by
    rw [show exMoved.entity? (.ofNat 2) = some entity from he, Option.map_some] at hversion
    exact Option.some.inj hversion
  rw [hv] at hpointers hleases
  have hred : exMoved.leaseHolder ⟨"room", "name", "red"⟩ = none := by decide
  exact ⟨hpointers, hleases, (hfree _ hred).2, htakes, records, hlists,
    (hmem _).mpr ⟨entity, hl, he, hv.symm⟩⟩

end LeaseLog
