import LeaseLog.Proofs.State.LeaseIndex
import LeaseLog.Repository

/-!
# What a session does

The effects of a plain session on the storage: which log a commit changes and how, and what a
lookup of a lease answers.

Results:
1. `commitSession_cases`: a commit through a session either leaves the logs as they are or applies
   the source to the log of its engine.
2. `snapshot_ofLease`: a lookup of a lease selects the current state of its holder.
3. `find_plain`: the answer of a lookup through a session, with all its failures.
-/

namespace LeaseLog

/-! ## Definitions -/

/-- The current state of the entity that holds a lease. -/
def LogState.pointerOf? (state : LogState) (lease : Lease) : Option Pointer :=
  (state.leaseHolder lease).map fun id => ⟨id, state.versionOf id⟩

/-! ## 1. Commits -/

namespace SessionLemmas

variable {storage : Storage} {index : Nat} {session : Session} {source : Source} {token : Token}

@[simp] theorem stateOf_refresh (engine : Nat) :
    storage.refresh.stateOf engine = storage.stateOf engine :=
  rfl

theorem stateOf_setState {engine : Nat} {state : LogState} (h : engine < storage.engines.length) :
    (storage.setState engine state).stateOf engine = state := by
  simp [Storage.stateOf, Storage.setState, List.getElem?_eq_getElem h]

@[simp] theorem length_engines_setState {engine : Nat} {state : LogState} :
    (storage.setState engine state).engines.length = storage.engines.length := by
  simp [Storage.setState]

end SessionLemmas

open SessionLemmas

/-- Sessions and engines stay where they are when a source is committed. The log of the session's
engine is the one before, unless the commit is accepted: then the source was applied to it. -/
theorem commitSession_cases {storage after : Storage} {index : Nat} {session : Session}
    {source : Source} {token : Token} {result : Except RepositoryError Bool}
    (hs : storage.sessions[index]? = some session)
    (he : session.engine < storage.engines.length)
    (h : storage.commitSession index source token = (result, after)) :
    after.sessions = storage.sessions ∧ after.engines.length = storage.engines.length ∧
    ((result ≠ .ok true ∧ after.stateOf session.engine = storage.stateOf session.engine) ∨
      (result = .ok true ∧ (storage.stateOf session.engine).apply source Invariant.standard =
        .ok (after.stateOf session.engine))) := by
  unfold Storage.commitSession at h
  simp only [hs] at h
  split at h
  · cases h
    exact ⟨rfl, rfl, .inl ⟨by simp, rfl⟩⟩
  · split at h
    · cases h
      exact ⟨rfl, rfl, .inl ⟨by simp, rfl⟩⟩
    · simp only [Storage.readLog, LogState.commit, stateOf_refresh] at h
      have he' : session.engine < storage.refresh.spend.engines.length := he
      split at h
      · next final ha =>
        cases h
        exact ⟨rfl, length_engines_setState, .inr ⟨rfl, by rw [stateOf_setState he', ha]⟩⟩
      · cases h
        exact ⟨rfl, length_engines_setState, .inl ⟨by simp, stateOf_setState he'⟩⟩

/-- A session does not touch the scripts of failures. -/
theorem scripts_commitSession (storage : Storage) (index : Nat) (source : Source) (token : Token) :
    (storage.commitSession index source token).2.scripts = storage.scripts := by
  unfold Storage.commitSession
  split
  · rfl
  · split
    · rfl
    · dsimp only
      split
      · rfl
      · rfl

/-! ## 2. Selecting the holder of a lease -/

namespace SessionLemmas

theorem find?_entityList {state : LogState} (hc : state.Coherent) {lease : Lease} :
    (state.entityList.find? fun (_, entity) => decide (lease ∈ entity.leases.toList)).map
        (fun (id, entity) => (⟨id, entity.version⟩ : Pointer)) =
      state.pointerOf? lease := by
  cases hl : state.leaseHolder lease with
  | none =>
    rw [LogState.pointerOf?, hl, Option.map_none, Option.map_eq_none_iff, List.find?_eq_none]
    rintro ⟨id, entity⟩ hm hd
    obtain ⟨id', -, he⟩ := List.mem_filterMap.mp hm
    simp only [Option.map_eq_some_iff, Prod.mk.injEq] at he
    obtain ⟨entity', he, rfl, rfl⟩ := he
    have hd : lease ∈ entity'.leases := by simpa using hd
    have hh := (hc.index lease id').mpr ⟨entity', he, hd⟩
    rw [hl] at hh
    cases hh
  | some holder =>
    obtain ⟨entity, he, hm⟩ := (hc.index lease holder).mp hl
    have hlisted : (holder, entity) ∈ state.entityList :=
      List.mem_filterMap.mpr ⟨holder, (hc.mem_created holder).mpr (by simp [he]), by simp [he]⟩
    cases hf : state.entityList.find? fun (_, entity) => decide (lease ∈ entity.leases.toList) with
    | none => exact absurd (List.find?_eq_none.mp hf _ hlisted) (by simpa using hm)
    | some pair =>
      obtain ⟨id, found⟩ := pair
      have hd : lease ∈ found.leases := by simpa using List.find?_some hf
      obtain ⟨id', -, hg⟩ := List.mem_filterMap.mp (List.mem_of_find?_eq_some hf)
      simp only [Option.map_eq_some_iff, Prod.mk.injEq] at hg
      obtain ⟨entity', hg, rfl, rfl⟩ := hg
      have hh := (hc.index lease id').mpr ⟨entity', hg, hd⟩
      cases hl.symm.trans hh
      simp [LogState.pointerOf?, hl, LogState.versionOf, hg]

end SessionLemmas

/-- A lookup of a lease selects the current state of its holder, and nothing if nobody holds it. -/
theorem snapshot_ofLease {state : LogState} (hc : state.Coherent) (lease : Lease) :
    Listing.snapshot .pointers state (.of (.ofLease lease)) = (state.pointerOf? lease).toList := by
  rw [← find?_entityList hc, ← List.head?_filter]
  show ((((Listing.pointerRows state).filter fun row =>
    Filter.accepts row.1 (.lease lease)).drop 0).take 1).map Prod.snd = _
  rw [List.drop_zero, List.take_one, Listing.pointerRows, List.filter_map, List.head?_map]
  -- a row matches if the lease is in the set of its entity, so the first match is the holder
  simp only [Function.comp_def, Filter.accepts, Listing.entityRow]
  cases (state.entityList.filter fun pair => decide (lease ∈ pair.2.leases.toList)).head? <;> rfl

/-! ## 3. Lookups -/

/-- What a lookup of a lease through a plain session answers: the current state of the holder, if
there is one, unless the token is cancelled by the time it is handed out. A session that was
disposed of answers with an error. -/
theorem find_plain {storage : Storage} {index : Nat} {session : Session}
    (hs : storage.sessions[index]? = some session)
    (hc : (storage.stateOf session.engine).Coherent) (lease : Lease) (token : Token) :
    (Repository.bare (.plain index)).backend.find lease token storage =
      match session.ensureOpen with
      | .error cause =>
        (.error (if token.isCancelled storage.now then .cancelled else cause), storage)
      | .ok () =>
        match (storage.stateOf session.engine).pointerOf? lease with
        | none => (.ok none, storage.spend)
        | some pointer =>
          (if token.isCancelled storage.spend.now then .error .cancelled else .ok (some pointer),
            storage.spend) := by
  simp only [Repository.backend, Repository.firstPointer, Repository.list, Store.list, Store.scan,
    hs, Cursor.poll, Scan.poll, Scan.entries]
  cases session.ensureOpen with
  | error cause =>
    simp only [Scan.touch, Scan.next]
    by_cases ht : token.isCancelled storage.now = true <;> simp [ht]
  | ok _ =>
    simp only [Scan.touch, snapshot_ofLease hc]
    cases (storage.stateOf session.engine).pointerOf? lease with
    | none => rfl
    | some pointer =>
      simp only [Option.toList_some, List.map_cons, List.map_nil, Scan.next]
      by_cases ht : token.isCancelled storage.spend.now = true <;> simp [ht]

end LeaseLog
