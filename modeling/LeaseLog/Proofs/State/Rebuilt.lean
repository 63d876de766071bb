import LeaseLog.Proofs.State.Replay
import LeaseLog.Storage.Session
import Mathlib.Data.List.Nodup
import Mathlib.Data.List.Perm.Subperm

/-!
# Rebuilding a state from its log

A state is never stored: it is rebuilt from the sources of its log whenever one of them is taken
out. What was built up commit by commit, with rejections and rebuilds in between, is the state that
one replay of the log gives. So a reachable state is a function of its sources.

Results:
1. `applyAll_append`: a log is replayed part by part.
2. `replay_of_reachable`, `eq_of_sources`: a reachable state is the replay of its own log, and the
   only reachable state with that log.
3. `exists_before`: every beginning of the log of a reachable state has a reachable state of its
   own, from which the rest of the log leads on.
4. `purge_eq_replay`: taking a source out is replaying the other ones.
5. `earlier_of_leads`: what stands before a source in a log stood there when it was committed.
-/

namespace LeaseLog

/-! ## Definitions -/

namespace LogState

/-- The state after sources were committed one after another, accepted or not. -/
def commitAll (state : LogState) (sources : List Source) : LogState :=
  sources.foldl (fun state source => (state.commit source).2) state

/-- The sources of a log that do not have an identifier, in their order. -/
def without (state : LogState) (id : Ident) : List Source :=
  state.sources.filter fun source => source.id ≠ id

/-- What commits and purges make of a log. The list has the sources that were accepted on the way,
in the order in which they were. -/
inductive Leads (first : LogState) : List Source → LogState → Prop
  | refl : Leads first [] first
  | commit {committed : List Source} {last next : LogState} {source : Source} :
      Leads first committed last → last.commit source = (true, next) →
      Leads first (committed ++ [source]) next
  | purge {committed : List Source} {last next : LogState} {id : Ident} :
      Leads first committed last → last.purge id = .ok next → Leads first committed next

end LogState

/-! ## 1. Logs in parts -/

theorem applyAll_append {invariants : List Invariant} {earlier later : List Source} :
    ∀ {state : LogState}, LogState.applyAll invariants state (earlier ++ later) =
      match LogState.applyAll invariants state earlier with
      | .error cause => .error cause
      | .ok middle => LogState.applyAll invariants middle later := by
  induction earlier with
  | nil =>
    intro state
    rfl
  | cons source earlier ih =>
    intro state
    rw [List.cons_append, LogState.applyAll, LogState.applyAll]
    cases state.apply source invariants with
    | error violation => rfl
    | ok next => exact ih

theorem commitAll_of_applyAll {sources : List Source} :
    ∀ {state final : LogState},
      LogState.applyAll Invariant.standard state sources = .ok final →
      state.commitAll sources = final := by
  induction sources with
  | nil =>
    intro state final h
    cases h
    rfl
  | cons source sources ih =>
    intro state final h
    rw [LogState.applyAll] at h
    split at h
    · cases h
    · next reached ha =>
      have hcommit : (state.commit source).2 = reached := by rw [LogState.commit, ha]
      rw [LogState.commitAll, List.foldl_cons, hcommit]
      exact ih h

/-! ## 2. A state and its own log -/

theorem replay_apply {state final : LogState} {source : Source}
    (h : LogState.replay state.sources Invariant.standard = .ok state)
    (ha : state.apply source Invariant.standard = .ok final) :
    LogState.replay final.sources Invariant.standard = .ok final := by
  rw [sources_of_apply ha, LogState.replay, applyAll_append, ← LogState.replay, h]
  show LogState.applyAll Invariant.standard state [source] = .ok final
  rw [LogState.applyAll, ha]
  rfl

/-- Whatever was rejected or purged on the way, a reachable state is the replay of its log. -/
theorem replay_of_reachable {state : LogState} (h : state.Reachable) :
    LogState.replay state.sources Invariant.standard = .ok state :=
  reachable_induction
    (P := fun state => LogState.replay state.sources Invariant.standard = .ok state) rfl
    (fun _ _ _ hr ha => replay_apply hr ha) h

theorem eq_of_sources {a b : LogState} (ha : a.Reachable) (hb : b.Reachable)
    (h : a.sources = b.sources) : a = b := by
  have hra := replay_of_reachable ha
  rw [h, replay_of_reachable hb] at hra
  exact (Except.ok.inj hra).symm

/-! ## 3. States on the way -/

/-- The state that a beginning of a log leads to. The log passed through it when it was replayed,
but need not have done so when it was written. -/
theorem exists_before {state : LogState} (h : state.Reachable) {earlier later : List Source}
    (hs : state.sources = earlier ++ later) :
    ∃ before : LogState, before.Reachable ∧ before.sources = earlier ∧
      LogState.applyAll Invariant.standard before later = .ok state := by
  have hr := replay_of_reachable h
  rw [hs, LogState.replay, applyAll_append] at hr
  split at hr
  · cases hr
  · next before hb =>
    exact ⟨before, ReplayLemmas.reachable_of_replay hb, ReplayLemmas.sources_of_replay hb, hr⟩

/-- The newest source of a log was committed to the state that the rest of the log leads to. -/
theorem exists_before_newest {state : LogState} (h : state.Reachable) {earlier : List Source}
    {newest : Source} (hs : state.sources = earlier ++ [newest]) :
    ∃ before : LogState, before.Reachable ∧ before.sources = earlier ∧
      before.commit newest = (true, state) := by
  obtain ⟨before, hb, hsources, ha⟩ := exists_before h hs
  refine ⟨before, hb, hsources, ?_⟩
  rw [LogState.applyAll] at ha
  split at ha
  · cases ha
  · next reached hr =>
    cases ha
    rw [LogState.commit, hr]

/-! ## 4. Taking a source out -/

theorem without_eq_sources {state : LogState} {id : Ident}
    (h : ∀ source ∈ state.sources, source.id ≠ id) : state.without id = state.sources := by
  rw [LogState.without, List.filter_eq_self]
  intro source hm
  exact decide_eq_true (h source hm)

theorem purge_eq_replay {state : LogState} (h : state.Reachable) (id : Ident) :
    state.purge id = LogState.replay (state.without id) Invariant.standard := by
  rw [LogState.purge]
  split
  · rfl
  · next hn =>
    -- nothing has the identifier, so nothing is taken out, and the log replays to its own state
    have hne : ∀ source ∈ state.sources, source.id ≠ id := by
      intro source hm he
      exact hn (List.any_eq_true.mpr ⟨source, hm, decide_eq_true he⟩)
    rw [without_eq_sources hne]
    exact (replay_of_reachable h).symm

theorem sources_of_purge {state next : LogState} {id : Ident} (h : state.purge id = .ok next) :
    next.sources = state.without id := by
  rw [LogState.purge] at h
  split at h
  · exact ReplayLemmas.sources_of_replay h
  · next hn =>
    cases h
    refine (without_eq_sources fun source hm he => hn ?_).symm
    exact List.any_eq_true.mpr ⟨source, hm, decide_eq_true he⟩

theorem sources_of_commit {before state : LogState} {source : Source}
    (h : before.commit source = (true, state)) : state.sources = before.sources ++ [source] := by
  rw [LogState.commit] at h
  split at h
  · next final ha =>
    cases h
    exact sources_of_apply ha
  · cases h

/-- Taking out the newest source takes its commit back. -/
theorem purge_newest {before state : LogState} {newest : Source} (hb : before.Reachable)
    (hc : before.commit newest = (true, state))
    (hfresh : ∀ source ∈ before.sources, source.id ≠ newest.id) :
    state.purge newest.id = .ok before := by
  have hstate : state.Reachable := by
    have hr := hb.commit newest
    rwa [hc] at hr
  have hs : state.sources = before.sources ++ [newest] := sources_of_commit hc
  have hrest : state.without newest.id = before.sources := by
    rw [LogState.without, hs, List.filter_append]
    rw [← LogState.without, without_eq_sources hfresh]
    simp
  rw [purge_eq_replay hstate, hrest]
  exact replay_of_reachable hb

/-- Once a source is taken out there is nothing left to take out. -/
theorem purge_again {state next : LogState} {id : Ident} (h : state.Reachable)
    (hp : state.purge id = .ok next) : next.purge id = .ok next := by
  have hs : next.sources = state.without id := sources_of_purge hp
  have hnext : next.Reachable := h.purge hp
  rw [purge_eq_replay hnext, without_eq_sources]
  · exact replay_of_reachable hnext
  · intro source hm
    rw [hs, LogState.without, List.mem_filter] at hm
    exact of_decide_eq_true hm.2

/-! ## 5. Sources keep their places -/

/-- Sources are added at the end of a log, and they are taken out, but they never change places. -/
theorem sublist_of_leads {first last : LogState} {committed : List Source}
    (h : first.Leads committed last) : last.sources.Sublist (first.sources ++ committed) := by
  induction h with
  | refl => rw [List.append_nil]
  | @commit committed last next source _ hc ih =>
    rw [sources_of_commit hc, ← List.append_assoc]
    exact ih.append_right [source]
  | purge _ hp ih =>
    rw [sources_of_purge hp]
    exact List.filter_sublist.trans ih

/-- A source in a log has the same sources before it as when it was committed, if no identifier came
twice and none of them was purged. -/
theorem earlier_of_leads {origin first last : LogState} {committed earlier later : List Source}
    {source : Source} (hc : origin.commit source = (true, first)) (h : first.Leads committed last)
    (hd : ((origin.sources ++ source :: committed).map Source.id).Nodup)
    (hl : last.sources = earlier ++ source :: later)
    (hkept : ∀ kept ∈ origin.sources, kept ∈ last.sources) : earlier = origin.sources := by
  have hnodup : (origin.sources ++ source :: committed).Nodup := .of_map _ hd
  have hsublist : last.sources.Sublist (origin.sources ++ source :: committed) := by
    rw [List.append_cons, ← sources_of_commit hc]
    exact sublist_of_leads h
  obtain ⟨old, new, hsplit, hold, hnew⟩ := List.sublist_append_iff.mp hsublist
  have hdisjoint := List.disjoint_of_nodup_append hnodup
  -- what was there is still there, so `old` is all of it
  have hsubset : origin.sources ⊆ old := by
    intro kept hm
    have hlast := hkept kept hm
    rw [hsplit, List.mem_append] at hlast
    refine hlast.resolve_right fun hn => ?_
    exact hdisjoint hm (hnew.subset hn)
  have horigin : origin.sources.Nodup := (List.nodup_append.mp hnodup).1
  have hwhole : old = origin.sources :=
    hold.eq_of_length_le (List.subperm_of_subset horigin hsubset).length_le
  rw [hwhole, hl] at hsplit
  have hfresh : source ∉ origin.sources := fun hm => hdisjoint hm List.mem_cons_self
  have hlater : source ∉ committed :=
    (List.nodup_cons.mp (List.nodup_append.mp hnodup).2.1).1
  rcases List.sublist_cons_iff.mp hnew with hnew | ⟨rest, rfl, hrest⟩
  · have hm : source ∈ origin.sources ++ new := by
      rw [← hsplit]
      exact List.mem_append_right _ List.mem_cons_self
    rcases List.mem_append.mp hm with hm | hm
    · exact absurd hm hfresh
    · exact absurd (hnew.subset hm) hlater
  · have hrest : source ∉ rest := fun hm => hlater (hrest.subset hm)
    exact ((List.append_cons_inj_of_notMem hfresh hrest).mp hsplit.symm).1.symm

end LeaseLog
