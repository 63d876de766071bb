import LeaseLog.Proofs.Query.Criteria
import LeaseLog.Proofs.Query.Reversal
import LeaseLog.Proofs.State.History
import LeaseLog.Proofs.Storage.Lookups

/-!
# Reading the history of an entity

The deltas of an entity are listed by the time of their sources, and then by version. Messages of one
source share its time, and so may messages of different sources, so the times alone do not order
them. The versions do: in a log they only grow. If the times of the sources do not fall, both keys
agree with the log, and no two messages of the entity tie.

Results:
1. `map_version_entriesOf`: the messages of an entity have the versions from one upward, in log
   order.
2. `pairwise_entriesOf`: the rows of these messages are strictly ordered.
3. `entity_history_in_order`: what an open session hands out for the entity, both ways round.
-/

namespace LeaseLog

/-! ## Definitions -/

/-- Criteria that ask for one entity, and for nothing else. -/
def Criteria.ofEntity (id : Ident) : Criteria := { Criteria.any with stateIds := [id] }

namespace LogState

/-- The committed messages with their sources, in log order. -/
def entries (state : LogState) : List (Source × Message) :=
  state.sources.flatMap fun source => source.messages.map fun message => (source, message)

/-- The times of the sources do not fall in commit order; some of them may be equal. -/
def Chronological (state : LogState) : Prop :=
  state.sources.Pairwise fun a b => (compare a.timestamp b.timestamp).isLE

/-- Records are the history of an entity: one for each of its messages, from version one upward,
each with the source that committed it. -/
structure Recounts (state : LogState) (id : Ident) (records : List DeltaRecord) : Prop where
  versions : records.map (fun record => record.state.version.toNat) =
    List.range' 1 (writes state.messages id)
  committed : ∀ record, record ∈ records ↔ ∃ source ∈ state.sources, ∃ message ∈ source.messages,
    message.state.id = id ∧ record = ⟨source.id, message.state, message.delta⟩

end LogState

/-! ## 1. The messages of an entity -/

namespace EntityHistoryLemmas

variable {state : LogState} {id : Ident}

/-- The messages of an entity with their sources, in log order. -/
def entriesOf (state : LogState) (id : Ident) : List (Source × Message) :=
  state.entries.filter fun entry => entry.2.state.id = id

/-- The row by which a message is listed. -/
def rowOf (entry : Source × Message) : Row := Listing.messageRow entry.1 entry.2

/-- What is listed of a message. -/
def recordOf (entry : Source × Message) : DeltaRecord :=
  ⟨entry.1.id, entry.2.state, entry.2.delta⟩

theorem deltaRows_eq :
    Listing.deltaRows state = state.entries.map fun entry => (rowOf entry, recordOf entry) := by
  simp only [Listing.deltaRows, LogState.entries, List.map_flatMap, List.map_map]
  rfl

theorem map_snd_entries : state.entries.map Prod.snd = state.messages := by
  simp only [LogState.entries, LogState.messages, List.map_flatMap, List.map_map]
  simp [Function.comp_def]

theorem mem_entriesOf {entry : Source × Message} : entry ∈ entriesOf state id ↔
    entry.1 ∈ state.sources ∧ entry.2 ∈ entry.1.messages ∧ entry.2.state.id = id := by
  rw [entriesOf, List.mem_filter, decide_eq_true_eq, LogState.entries, List.mem_flatMap,
    ← and_assoc]
  refine and_congr_left fun _ => ⟨?_, fun ⟨hs, hm⟩ => ?_⟩
  · rintro ⟨source, hs, hentry⟩
    obtain ⟨message, hm, rfl⟩ := List.mem_map.mp hentry
    exact ⟨hs, hm⟩
  · exact ⟨entry.1, hs, List.mem_map.mpr ⟨entry.2, hm, rfl⟩⟩

end EntityHistoryLemmas

open EntityHistoryLemmas

theorem map_version_entriesOf {state : LogState} (h : state.Reachable) (id : Ident) :
    (entriesOf state id).map (fun entry => entry.2.state.version.toNat) =
      List.range' 1 (writes state.messages id) := by
  have hhistory : state.history id = List.range' 1 (writes state.messages id) := by
    rw [← (reads_of_reachable h).version]
    exact (recorded_of_reachable h).history id
  rw [← hhistory, LogState.history, ← map_snd_entries, List.filter_map, List.map_map]
  rfl

/-! ## 2. Their rows -/

namespace EntityHistoryLemmas

variable {state : LogState} {id : Ident}

/-- Of two messages in a log, the first one is not later than the second one. -/
theorem pairwise_time_entries (h : state.Chronological) :
    state.entries.Pairwise fun a b => (compare a.1.timestamp b.1.timestamp).isLE := by
  refine List.pairwise_flatMap.mpr ⟨fun source _ => ?_, h.imp fun {a b} hab => ?_⟩
  · refine List.pairwise_map.mpr (List.pairwise_of_forall fun _ _ => ?_)
    exact Std.ReflCmp.isLE_rfl
  · rintro x hx y hy
    obtain ⟨_, _, rfl⟩ := List.mem_map.mp hx
    obtain ⟨_, _, rfl⟩ := List.mem_map.mp hy
    exact hab

/-- Of two messages of an entity, the first one has the lower version. -/
theorem pairwise_version_entriesOf (h : state.Reachable) : (entriesOf state id).Pairwise fun a b =>
    a.2.state.version.toNat < b.2.state.version.toNat := by
  have hincreasing : ((entriesOf state id).map
      fun entry => entry.2.state.version.toNat).Pairwise (· < ·) := by
    rw [map_version_entriesOf h]
    exact List.pairwise_lt_range' 1
  exact List.pairwise_map.mp hincreasing

end EntityHistoryLemmas

/-- Criteria put the messages of an entity strictly in log order. -/
theorem pairwise_entriesOf {state : LogState} (h : state.Reachable) (hc : state.Chronological)
    (criteria : Criteria) (id : Ident) : (entriesOf state id).Pairwise fun a b =>
      (Plan.of criteria.toQuery).compare (rowOf a) (rowOf b) = .lt := by
  have htimes : (entriesOf state id).Pairwise fun a b =>
      (compare a.1.timestamp b.1.timestamp).isLE := (pairwise_time_entries hc).filter _
  refine (htimes.and (pairwise_version_entriesOf h)).imp fun {a b} ⟨htime, hversion⟩ => ?_
  have hrows : (Plan.of criteria.toQuery).compare (rowOf a) (rowOf b) =
      (compare a.1.timestamp b.1.timestamp).then (compare a.2.state.version b.2.state.version) :=
    Criteria.compare_criteria criteria (rowOf a) (rowOf b)
  have hversions : compare a.2.state.version b.2.state.version = .lt :=
    Nat.compare_eq_lt.mpr hversion
  rw [hrows, Ordering.then_eq_lt]
  exact (Ordering.isLE_iff_eq_lt_or_eq_eq.mp htime).imp_right fun heq => ⟨heq, hversions⟩

/-! ## 3. The result -/

section

variable {state : LogState} {id : Ident}

theorem matching_ofEntity : (Plan.of (Criteria.ofEntity id).toQuery).matching
    (Listing.deltaRows state) =
      (entriesOf state id).map fun entry => (rowOf entry, recordOf entry) := by
  have haccepts (entry : Source × Message) :
      (Plan.of (Criteria.ofEntity id).toQuery).filter.accepts (rowOf entry) =
        decide (entry.2.state.id = id) := by
    show Filter.accepts (rowOf entry) (.stateIdIn [id]) = _
    simp [Filter.accepts, rowOf, Listing.messageRow]
  rw [deltaRows_eq, Plan.matching, List.filter_map]
  simp only [Function.comp_def, haccepts]
  rfl

/-- No two messages of an entity tie. -/
theorem pairwise_matching_ofEntity (h : state.Reachable) (hc : state.Chronological) (id : Ident) :
    ((Plan.of (Criteria.ofEntity id).toQuery).matching (Listing.deltaRows state)).Pairwise
      fun a b => (Plan.of (Criteria.ofEntity id).toQuery).compare a.1 b.1 = .lt := by
  rw [matching_ofEntity]
  exact List.pairwise_map.mpr (pairwise_entriesOf h hc _ id)

/-- The rows of an entity are in order already, so they stay as they are. -/
theorem snapshot_ofEntity (h : state.Reachable) (hc : state.Chronological) :
    Listing.snapshot .deltas state (.of (Criteria.ofEntity id).toQuery) =
      (entriesOf state id).map recordOf := by
  have hstrict := pairwise_matching_ofEntity h hc id
  have harrange : (Plan.of (Criteria.ofEntity id).toQuery).arrange (Listing.deltaRows state) =
      (entriesOf state id).map fun entry => (rowOf entry, recordOf entry) := by
    rw [← matching_ofEntity]
    refine arrange_eq_of_sorted (hstrict.imp fun hlt heq => ?_) (.refl _)
      (hstrict.imp fun hlt => ?_)
    · rw [hlt] at heq
      cases heq
    · rw [hlt]
      rfl
  show (Plan.of (Criteria.ofEntity id).toQuery).select (Listing.deltaRows state) = _
  rw [Plan.select, harrange]
  exact List.map_map

theorem snapshot_ofEntity_reversed (h : state.Reachable) (hc : state.Chronological) :
    Listing.snapshot .deltas state (.of (Criteria.ofEntity id).toQuery.reversed) =
      ((entriesOf state id).map recordOf).reverse := by
  rw [← snapshot_ofEntity h hc]
  refine select_reversed rfl rfl ((pairwise_matching_ofEntity h hc id).imp fun hlt heq => ?_)
  rw [hlt] at heq
  cases heq

theorem recounts_entriesOf (h : state.Reachable) (id : Ident) :
    state.Recounts id ((entriesOf state id).map recordOf) where
  versions := by
    rw [List.map_map]
    exact map_version_entriesOf h id
  committed record := by
    simp only [List.mem_map, mem_entriesOf, Prod.exists, recordOf]
    constructor
    · rintro ⟨source, message, ⟨hs, hm, hid⟩, rfl⟩
      exact ⟨source, hs, message, hm, hid, rfl⟩
    · rintro ⟨source, hs, message, hm, hid, rfl⟩
      exact ⟨source, message, ⟨hs, hm, hid⟩, rfl⟩

/-- An entity has one history. -/
theorem LogState.Recounts.unique {records other : List DeltaRecord} (h : state.Recounts id records)
    (ho : state.Recounts id other) : other = records := by
  have hincreasing {history : List DeltaRecord} (hh : state.Recounts id history) :
      history.Pairwise fun a b => a.state.version.toNat < b.state.version.toNat := by
    refine List.pairwise_map.mp ?_
    rw [hh.versions]
    exact List.pairwise_lt_range' 1
  have hnodup {history : List DeltaRecord} (hh : state.Recounts id history) : history.Nodup :=
    (hincreasing hh).imp fun {a b} hlt (heq : a = b) => Nat.lt_irrefl _ (heq ▸ hlt)
  have hperm : other.Perm records :=
    (List.perm_ext_iff_of_nodup (hnodup ho) (hnodup h)).mpr fun record =>
      (ho.committed record).trans (h.committed record).symm
  exact hperm.eq_of_pairwise (fun _ _ _ _ hab hba => absurd hba (Nat.lt_asymm hab))
    (hincreasing ho) (hincreasing h)

end

/-- If the times of the sources in a reachable log do not fall, an open session whose token is not
cancelled lists for an entity exactly its history, one record for each of its messages from version
one upward, and for the reversed criteria the same records from the last version downward. -/
theorem entity_history_in_order {storage : Storage} {index : Nat} {session : Session}
    {token : Token} (hs : storage.sessions[index]? = some session) (ho : session.closed = false)
    (hr : (storage.stateOf session.engine).Reachable)
    (hc : (storage.stateOf session.engine).Chronological)
    (ht : token.isCancelled storage.spend.now = false) (id : Ident) :
    ∃ records, (storage.stateOf session.engine).Recounts id records ∧
      (∀ other, (storage.stateOf session.engine).Recounts id other → other = records) ∧
      storage.Lists index .deltas (Criteria.ofEntity id).toQuery token records ∧
      storage.Lists index .deltas (Criteria.ofEntity id).toQuery.reversed token
        records.reverse := by
  have hrecounts := recounts_entriesOf hr id
  refine ⟨_, hrecounts, fun other => hrecounts.unique, ?_, ?_⟩
  · rw [← snapshot_ofEntity hr hc]
    exact lists_snapshot hs ho ht .deltas _
  · rw [← snapshot_ofEntity_reversed hr hc]
    exact lists_snapshot hs ho ht .deltas _

/-- A session on a log with two sources of one time. The second one writes an entity twice, and
another one in between. -/
def exDiary : Storage :=
  let write (entity version : Nat) : Message :=
    .plain ⟨.ofNat entity, (Version.ofNat? version).getD .zero⟩ default
  let first : Source := ⟨.ofNat 7, default, default, [write 1 1]⟩
  let second : Source := ⟨.ofNat 8, default, default, [write 1 2, write 2 1, write 1 3]⟩
  ((Storage.empty.addEngine ⟨LogState.empty.commitAll [first, second], 0⟩).2.addSession 0 .reader).2

/-- The entity has three versions, of which two come from the second source. -/
theorem entity_history_in_order_shared :
    let record (source version : Nat) : DeltaRecord :=
      ⟨.ofNat source, ⟨.ofNat 1, (Version.ofNat? version).getD .zero⟩, default⟩
    let query := (Criteria.ofEntity (.ofNat 1)).toQuery
    exDiary.sessions[0]? = some ⟨0, .reader, false⟩ ∧ (exDiary.stateOf 0).Reachable ∧
    (exDiary.stateOf 0).Chronological ∧ Token.never.isCancelled exDiary.spend.now = false ∧
    exDiary.Lists 0 .deltas query .never [record 7 1, record 8 2, record 8 3] ∧
    exDiary.Lists 0 .deltas query.reversed .never [record 8 3, record 8 2, record 7 1] := by
  intro record query
  have hs : exDiary.sessions[0]? = some ⟨0, .reader, false⟩ := rfl
  have hr : (exDiary.stateOf 0).Reachable := .commit _ (.commit _ .empty)
  have hc : (exDiary.stateOf 0).Chronological :=
    List.pairwise_pair.mpr (Std.ReflCmp.isLE_rfl)
  have ht : Token.never.isCancelled exDiary.spend.now = false := rfl
  have hhistory : (exDiary.stateOf 0).Recounts (.ofNat 1)
      [record 7 1, record 8 2, record 8 3] := recounts_entriesOf hr (.ofNat 1)
  obtain ⟨records, -, hunique, hforward, hbackward⟩ :=
    entity_history_in_order hs rfl hr hc ht (.ofNat 1)
  obtain rfl := hunique _ hhistory
  exact ⟨hs, hr, hc, ht, hforward, hbackward⟩

end LeaseLog
