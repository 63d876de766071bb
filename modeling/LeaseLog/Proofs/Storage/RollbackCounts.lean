import LeaseLog.Proofs.Storage.Tickets
import Mathlib.Data.List.Perm.Basic

/-!
# What a rollback counts

A rollback purges the sources that it has tickets for and counts its purges. Others may use the
engine between two calls, and they may purge such a source themselves. The ledger does not notice,
and a purge that finds nothing to remove is successful. So the count is the number of tickets: it is
the number of sources that the log has lost only if others have purged none of them.

Results:
1. `disturbs_commitSession`, `disturbs_purgeSession`: commits and purges through any session of the
   engine are something that others may do.
2. `shares_step`: every call, and whatever others do, keeps track of which tickets lead to sources
   that are still in the log.
3. `rollback_counts_tickets`: what a successful rollback counts and what it removes.
4. `rollback_counts_purged`: so it counts a source that it did not remove.
-/

namespace LeaseLog

/-! ## Definitions -/

/-- A call to a staging repository with its answer, or what others did: the sources that they added
to the log, and the identifiers that the log lost by them. -/
inductive SharedEvent
  | own (event : StagingEvent)
  | others (gained : List Source) (lost : List Ident)
deriving DecidableEq

namespace SharedEvent

/-- The identifiers of the sources that the log gained. -/
def committed : SharedEvent → List Ident
  | .own event => (event.accepted?.map fun entry => entry.2.id).toList
  | .others gained _ => gained.map Source.id

/-- The identifiers that the log lost by others. -/
def lost : SharedEvent → List Ident
  | .own _ => []
  | .others _ lost => lost

end SharedEvent

/-- The identifiers of all sources that the log gained, in commit order. -/
def committedIds (events : List SharedEvent) : List Ident := events.flatMap SharedEvent.committed

/-- All identifiers that the log lost by others. -/
def lostIds (events : List SharedEvent) : List Ident := events.flatMap SharedEvent.lost

namespace Storage

/-- The identifiers of the sources in the log of an engine. -/
def logIds (storage : Storage) (engine : Nat) : List Ident :=
  (storage.stateOf engine).sources.map Source.id

/-- What others do: they leave the ledger alone, and they take sources out of the log of the engine
and add other ones at its end. -/
structure Disturbs (before : Storage) (staging : Staging) (engine : Nat) (gained : List Source)
    (lost : List Ident) (after : Storage) : Prop where
  stages : after.Stages staging engine
  ledger : after.ledger staging.ledger = before.ledger staging.ledger
  sources : (after.stateOf engine).sources =
    ((before.stateOf engine).sources.filter fun source => source.id ∉ lost) ++ gained
  /-- Nothing is lost that was not there. -/
  lost : lost ⊆ before.logIds engine

end Storage

namespace Staging

/-- The identifiers of the sources that a rollback would purge, in the order of their tickets. -/
def trackedIds (staging : Staging) (storage : Storage) : List Ident :=
  (liveSlots 0 (storage.ledger staging.ledger)).map Prod.snd

/-- One call, or something that others do. -/
inductive SharedStep (staging : Staging) (engine : Nat) : Storage → SharedEvent → Storage → Prop
  | own {before after : Storage} {event : StagingEvent} : event ≠ .others →
      staging.Step engine before event after → SharedStep staging engine before (.own event) after
  | others {before after : Storage} {gained : List Source} {lost : List Ident} :
      before.Disturbs staging engine gained lost after →
      SharedStep staging engine before (.others gained lost) after

/-- Calls one after another, and what others do between them. -/
inductive SharedRun (staging : Staging) (engine : Nat) (start : Storage) :
    List SharedEvent → Storage → Prop
  | refl : SharedRun staging engine start [] start
  | step {past : List SharedEvent} {storage after : Storage} {event : SharedEvent} :
      SharedRun staging engine start past storage → SharedStep staging engine storage event after →
      SharedRun staging engine start (past ++ [event]) after

/-- A ledger beside a log that others change too. `used` are the identifiers that ever were in the
log, and `lost` those that it lost by others. -/
structure Shares (staging : Staging) (engine : Nat) (used lost : List Ident) (storage : Storage) :
    Prop where
  stages : storage.Stages staging engine
  tracked : (staging.trackedIds storage).Nodup
  logged : (storage.logIds engine).Nodup
  trackedUsed : staging.trackedIds storage ⊆ used
  loggedUsed : storage.logIds engine ⊆ used
  lostUsed : lost ⊆ used
  /-- A tracked source is in the log until others purge it. -/
  kept : ∀ id ∈ staging.trackedIds storage, id ∈ storage.logIds engine ↔ id ∉ lost

end Staging

/-! ## 1. What others do -/

open Staging LayerLemmas RollbackLemmas TicketLemmas

namespace SharedLemmas

variable {storage after : Storage} {staging : Staging} {engine : Nat} {gone : List Ident}

theorem logIds_filtered (h : (after.stateOf engine).sources =
      (storage.stateOf engine).sources.filter fun source => source.id ∉ gone) :
    after.logIds engine = (storage.logIds engine).filter fun id => id ∉ gone := by
  rw [Storage.logIds, h, Storage.logIds, List.filter_map]
  rfl

theorem removed_drops (h : storage.Drops engine gone after) :
    storage.removed engine after = (storage.logIds engine).filter fun id => id ∈ gone := by
  refine List.filter_congr fun id (hm : id ∈ storage.logIds engine) => ?_
  have hleft : id ∈ after.logIds engine ↔ id ∉ gone := by
    rw [logIds_filtered h.sources, List.mem_filter, decide_eq_true_eq, and_iff_right hm]
  rw [decide_eq_decide]
  exact (not_congr hleft).trans Classical.not_not

theorem length_removed (h : storage.Drops engine gone after) :
    (after.logIds engine).length + (storage.removed engine after).length =
      (storage.logIds engine).length := by
  have hparts := List.length_eq_length_filter_add (l := storage.logIds engine)
    fun id => decide (id ∈ gone)
  simp only [← decide_not] at hparts
  rw [logIds_filtered h.sources, removed_drops h, hparts, Nat.add_comm]

theorem removed_untouched (h : storage.Untouched after) : storage.removed engine after = [] := by
  rw [removed_drops (drops_untouched h)]
  simp

theorem disturbs_untouched (h : storage.Stages staging engine) (hu : storage.Untouched after) :
    storage.Disturbs staging engine [] [] after := by
  refine ⟨stages_untouched h hu, ledger_untouched hu _, ?_, List.nil_subset _⟩
  rw [stateOf_untouched hu]
  simp

end SharedLemmas

open SharedLemmas

section

variable {storage after : Storage} {staging : Staging} {engine : Nat} {session : Session}

/-- A commit through any session of the engine adds its source if it is accepted. -/
theorem disturbs_commitSession (h : storage.Stages staging engine)
    (index : Nat) (hs : storage.sessions[index]? = some session) (he : session.engine = engine)
    (source : Source) (token : Token) :
    storage.Disturbs staging engine
      (if (storage.commitSession index source token).1 = .ok true then [source] else []) []
      (storage.commitSession index source token).2 := by
  subst he
  rcases settles_commitSession hs h.bound source token with ⟨hok, hcommits⟩ | ⟨hne, hu⟩
  · rw [if_pos hok]
    refine ⟨stages_commits h hcommits, hcommits.ticket _, ?_, List.nil_subset _⟩
    rw [hcommits.log.sources]
    simp
  · rw [if_neg hne]
    exact disturbs_untouched h hu

/-- A purge through any session of the engine removes what the log has lost after it. -/
theorem disturbs_purgeSession (h : storage.Stages staging engine)
    (index : Nat) (hs : storage.sessions[index]? = some session) (he : session.engine = engine)
    (id : Ident) :
    storage.Disturbs staging engine []
      (storage.removed engine (storage.purgeSession index id).2)
      (storage.purgeSession index id).2 := by
  have hother : storage.Stages ⟨staging.ledger, .plain index⟩ engine :=
    ⟨⟨session, hs, he⟩, h.bound, h.ledger⟩
  have hledgers := (ledgers_purgeSession storage index id).1
  rcases drops_purgeSession hother id (Prod.eta (storage.purgeSession index id)).symm with
    ⟨-, hdrops⟩ | ⟨-, hu⟩
  · refine ⟨stages_of_eq h hdrops.sessions hdrops.engines hdrops.ledgers, ?_, ?_,
      List.filter_sublist.subset⟩
    · rw [Storage.ledger, hledgers]
      rfl
    · rw [List.append_nil, hdrops.sources]
      refine List.filter_congr fun source hm => ?_
      rw [decide_eq_decide, not_iff_not]
      exact (mem_removed_iff hdrops hm).symm
  · rw [removed_untouched hu]
    exact disturbs_untouched h hu

end

/-! ## 2. One call after another -/

namespace SharedLemmas

variable {storage after : Storage} {staging : Staging} {engine : Nat} {used lost gone : List Ident}

theorem trackedIds_eq {slots : List (Nat × Ident)}
    (h : liveSlots 0 (storage.ledger staging.ledger) = slots) :
    staging.trackedIds storage = slots.map Prod.snd := by
  rw [Staging.trackedIds, h]

theorem append_subset_append {ids new : List Ident} (h : ids ⊆ used) : ids ++ new ⊆ used ++ new :=
  List.append_subset_of_subset_of_subset (List.subset_append_of_subset_left _ h)
    (List.subset_append_right _ _)

/-- Some tickets are ended, and sources without tickets may go. -/
theorem shares_narrowed (gone : List Ident) (h : staging.Shares engine used lost storage)
    (hs : after.Stages staging engine)
    (ht : (staging.trackedIds after).Sublist (staging.trackedIds storage))
    (hl : (after.stateOf engine).sources =
      (storage.stateOf engine).sources.filter fun source => source.id ∉ gone)
    (hd : ∀ id ∈ staging.trackedIds after, id ∉ gone) :
    staging.Shares engine used lost after := by
  have hlog := logIds_filtered hl
  refine ⟨hs, h.tracked.sublist ht, ?_, fun _ hm => h.trackedUsed (ht.subset hm), ?_, h.lostUsed,
    fun id hm => ?_⟩
  · rw [hlog]
    exact h.logged.filter _
  · rw [hlog]
    exact fun _ hm => h.loggedUsed (List.mem_filter.mp hm).1
  · rw [hlog, List.mem_filter, decide_eq_true_eq, and_iff_left (hd id hm)]
    exact h.kept id (ht.subset hm)

/-- An accepted commit has a source of its own, which is in the log. -/
theorem shares_commits (h : staging.Shares engine used lost storage) {source : Source}
    (hf : source.id ∉ used) (hc : storage.Commits engine (some staging.ledger) source after) :
    staging.Shares engine (used ++ [source.id]) lost after := by
  have htracked : staging.trackedIds after = staging.trackedIds storage ++ [source.id] := by
    rw [Staging.trackedIds, hc.ticket, if_pos rfl, liveSlots_concat, List.map_append]
    rfl
  have hlog : after.logIds engine = storage.logIds engine ++ [source.id] := by
    rw [Storage.logIds, hc.log.sources, List.map_append]
    rfl
  have hnew {ids : List Ident} (hn : ids.Nodup) (hu : ids ⊆ used) :
      (ids ++ [source.id]).Nodup :=
    List.nodup_append.mpr ⟨hn, List.nodup_singleton _, fun id hm other ho he =>
      hf (hu (List.mem_singleton.mp ho ▸ he ▸ hm))⟩
  refine ⟨stages_commits h.stages hc, ?_, ?_, ?_, ?_,
    List.subset_append_of_subset_left _ h.lostUsed, fun id hm => ?_⟩
  · exact htracked ▸ hnew h.tracked h.trackedUsed
  · exact hlog ▸ hnew h.logged h.loggedUsed
  · exact htracked ▸ append_subset_append h.trackedUsed
  · exact hlog ▸ append_subset_append h.loggedUsed
  · rw [hlog, List.mem_append]
    rw [htracked, List.mem_append] at hm
    rcases hm with hm | hm
    · have hne : id ∉ [source.id] := fun he =>
        hf (List.mem_singleton.mp he ▸ h.trackedUsed hm)
      rw [or_iff_left hne]
      exact h.kept id hm
    · have hnot : id ∉ lost := fun hlost =>
        hf (List.mem_singleton.mp hm ▸ h.lostUsed hlost)
      exact iff_of_true (.inr hm) hnot

/-- Others take sources out of the log, with or without tickets, and add new ones. -/
theorem shares_disturbs (h : staging.Shares engine used lost storage) {gained : List Source}
    (hn : (used ++ gained.map Source.id).Nodup)
    (hd : storage.Disturbs staging engine gained gone after) :
    staging.Shares engine (used ++ gained.map Source.id) (lost ++ gone) after := by
  obtain ⟨-, hgained, hdisjoint⟩ := List.nodup_append.mp hn
  have htracked : staging.trackedIds after = staging.trackedIds storage := by
    rw [Staging.trackedIds, hd.ledger]
    rfl
  have hlog : after.logIds engine =
      (storage.logIds engine).filter (fun id => id ∉ gone) ++ gained.map Source.id := by
    rw [Storage.logIds, hd.sources, List.map_append, Storage.logIds, List.filter_map]
    rfl
  have holder : (storage.logIds engine).filter (fun id => id ∉ gone) ⊆ used := fun _ hm =>
    h.loggedUsed (List.mem_filter.mp hm).1
  refine ⟨hd.stages, htracked ▸ h.tracked, ?_, ?_, ?_, ?_, fun id hm => ?_⟩
  · rw [hlog, List.nodup_append]
    exact ⟨h.logged.filter _, hgained, fun id hm => hdisjoint id (holder hm)⟩
  · exact htracked ▸ List.subset_append_of_subset_left _ h.trackedUsed
  · exact hlog ▸ append_subset_append holder
  · exact List.subset_append_of_subset_left _
      (List.append_subset.mpr ⟨h.lostUsed, fun _ hm => h.loggedUsed (hd.lost hm)⟩)
  · rw [htracked] at hm
    have hnot : id ∉ gained.map Source.id := fun hg => hdisjoint id (h.trackedUsed hm) id hg rfl
    rw [hlog, List.mem_append, or_iff_left hnot, List.mem_filter, decide_eq_true_eq, h.kept id hm,
      List.mem_append, not_or]

theorem shares_untouched (h : staging.Shares engine used lost storage)
    (hu : storage.Untouched after) : staging.Shares engine used lost after := by
  refine shares_narrowed [] h (stages_untouched h.stages hu) ?_ ?_ ?_
  · rw [Staging.trackedIds, ledger_untouched hu]
    exact List.Sublist.refl _
  · rw [stateOf_untouched hu]
    simp
  · exact fun _ _ => List.not_mem_nil

theorem shares_commitTracked (h : staging.Shares engine used lost storage) (source : Source)
    (token watched : Token)
    (hn : (used ++ SharedEvent.committed (.own
      (.commit source (staging.commitTracked source token watched storage).1))).Nodup) :
    staging.Shares engine
      (used ++ SharedEvent.committed (.own
        (.commit source (staging.commitTracked source token watched storage).1))) lost
      (staging.commitTracked source token watched storage).2 := by
  rcases commitTracked_cases h.stages source token watched with
    ⟨-, hanswer, hcommits⟩ | ⟨-, hanswer, hu⟩
  · rw [hanswer] at hn ⊢
    exact shares_commits h (fun hm => List.disjoint_of_nodup_append hn hm (.head _)) hcommits
  · have hnone : StagingEvent.accepted? (.commit source
        (staging.commitTracked source token watched storage).1) = none := by
      rcases hcommit : (staging.commitTracked source token watched storage).1 with
        cause | _ | ticket
      · rfl
      · rfl
      · exact absurd hcommit (hanswer ticket)
    rw [SharedEvent.committed, hnone]
    exact (List.append_nil used).symm ▸ shares_untouched h hu

theorem shares_release (h : staging.Shares engine used lost storage) (ticket : Nat) :
    staging.Shares engine used lost (staging.release ticket storage).2 := by
  have hledger : (staging.release ticket storage).2.ledger staging.ledger =
      (storage.ledger staging.ledger).set ticket none := ledger_clear staging ticket storage
  refine shares_narrowed [] h (stages_clear h.stages ticket) ?_ ?_ ?_
  · rw [Staging.trackedIds, hledger, liveSlots_set]
    exact List.filter_sublist.map _
  · show (storage.stateOf engine).sources = _
    simp
  · exact fun _ _ => List.not_mem_nil

theorem shares_rollback (h : staging.Shares engine used lost storage) (token : Token)
    (patience : Option Nat) :
    staging.Shares engine used lost (staging.rollback token patience storage).2 := by
  obtain ⟨kept, gone, hsplit, hslots, -, hdrops, -⟩ :=
    drops_purgeAll _ h.stages rfl (Prod.eta (staging.rollback token patience storage)).symm
  have hbefore := trackedIds_eq hsplit
  have hafter := trackedIds_eq hslots
  rw [List.map_append] at hbefore
  refine shares_narrowed _ h (stages_of_eq h.stages hdrops.sessions hdrops.engines hdrops.ledgers)
    ?_ hdrops.sources ?_
  · rw [hbefore, hafter]
    exact List.sublist_append_left _ _
  · rw [hafter]
    exact fun id hm => List.disjoint_of_nodup_append (hbefore ▸ h.tracked) hm

end SharedLemmas

section

variable {staging : Staging} {engine : Nat} {start storage after : Storage} {used lost : List Ident}
  {events : List SharedEvent} {event : SharedEvent}

theorem shares_step (h : staging.Shares engine used lost storage)
    (hn : (used ++ event.committed).Nodup) (hs : staging.SharedStep engine storage event after) :
    staging.Shares engine (used ++ event.committed) (lost ++ event.lost) after := by
  cases hs with
  | others hdisturbs => exact shares_disturbs h hn hdisturbs
  | own hne hstep =>
    rw [SharedEvent.lost, List.append_nil]
    cases hstep with
    | tracked source token watched => exact shares_commitTracked h source token watched hn
    | plain source token => exact shares_commitTracked h source token .never hn
    | release ticket => exact (List.append_nil used).symm ▸ shares_release h ticket
    | rollback token patience =>
      exact (List.append_nil used).symm ▸ shares_rollback h token patience
    | others => exact absurd rfl hne

theorem shares_run (h : start.Stages staging engine) (hl : start.ledger staging.ledger = [])
    (hr : staging.SharedRun engine start events storage)
    (hd : (start.logIds engine ++ committedIds events).Nodup) :
    staging.Shares engine (start.logIds engine ++ committedIds events) (lostIds events)
      storage := by
  induction hr with
  | refl =>
    have hnone : staging.trackedIds start = [] := by
      rw [Staging.trackedIds, hl]
      rfl
    rw [committedIds, List.flatMap_nil, List.append_nil] at hd ⊢
    exact ⟨h, hnone ▸ List.nodup_nil, hd, hnone ▸ List.nil_subset _, List.Subset.refl _,
      List.nil_subset _, fun id hm => by rw [hnone] at hm; cases hm⟩
  | @step past storage after event _ hs ih =>
    have hcommitted : committedIds (past ++ [event]) = committedIds past ++ event.committed := by
      simp [committedIds]
    have hlost : lostIds (past ++ [event]) = lostIds past ++ event.lost := by
      simp [lostIds]
    rw [hcommitted, ← List.append_assoc] at hd ⊢
    rw [hlost]
    exact shares_step (ih hd.of_append_left) hd hs

end

/-! ## 3. The result -/

/-- Let others commit and purge as they like between the calls to a staging repository whose ledger
was empty at first, and let all sources have identifiers of their own. Then a rollback that is
successful counts the tickets that it found, and no ticket is left. It removes the tracked sources
that are in the log: those that others have not purged. So it has removed as many sources as it
counts if and only if others have purged none of the tracked ones. -/
theorem rollback_counts_tickets {staging : Staging} {engine : Nat} {start storage after : Storage}
    {events : List SharedEvent} {token : Token} {patience : Option Nat} {count : Nat}
    (h : start.Stages staging engine) (hl : start.ledger staging.ledger = [])
    (hr : staging.SharedRun engine start events storage)
    (hd : (start.logIds engine ++ committedIds events).Nodup)
    (hb : staging.rollback token patience storage = (.ok count, after)) :
    count = (staging.tickets storage).length ∧ staging.tickets after = [] ∧
    (after.stateOf engine).sources = (storage.stateOf engine).sources.filter
      (fun source => source.id ∉ staging.trackedIds storage) ∧
    (∀ id, id ∈ storage.removed engine after ↔
      id ∈ staging.trackedIds storage ∧ id ∈ storage.logIds engine) ∧
    (storage.removed engine after).Perm
      ((staging.trackedIds storage).filter fun id => id ∉ lostIds events) ∧
    (after.logIds engine).length + (storage.removed engine after).length =
      (storage.logIds engine).length ∧
    ((after.logIds engine).length + count = (storage.logIds engine).length ↔
      ∀ id ∈ staging.trackedIds storage, id ∉ lostIds events) := by
  have hshares := shares_run h hl hr hd
  obtain ⟨kept, gone, hsplit, hslots, -, hdrops, hcount⟩ :=
    drops_purgeAll _ hshares.stages rfl hb
  obtain ⟨rfl, rfl⟩ := hcount count rfl
  have htracked : staging.trackedIds storage = gone.map Prod.snd := trackedIds_eq hsplit
  rw [← htracked] at hdrops
  have hmem (id : Ident) : id ∈ storage.removed engine after ↔
      id ∈ staging.trackedIds storage ∧ id ∈ storage.logIds engine := by
    rw [removed_drops hdrops, List.mem_filter, decide_eq_true_eq, and_comm]
  have hperm : (storage.removed engine after).Perm
      ((staging.trackedIds storage).filter fun id => id ∉ lostIds events) := by
    refine (List.perm_ext_iff_of_nodup (hshares.logged.filter _) (hshares.tracked.filter _)).mpr
      fun id => (hmem id).trans ?_
    rw [List.mem_filter, decide_eq_true_eq]
    exact and_congr_right (hshares.kept id)
  have hcounted : gone.length = (staging.trackedIds storage).length := by
    rw [htracked, List.length_map]
  refine ⟨?_, ?_, hdrops.sources, hmem, hperm, length_removed hdrops, ?_⟩
  · rw [Nat.zero_add, Staging.tickets, hsplit, List.nil_append, List.length_map]
  · rw [Staging.tickets, hslots]
    rfl
  · rw [← length_removed hdrops, Nat.zero_add, Nat.add_left_cancel_iff, hperm.length_eq, hcounted,
      eq_comm, List.length_filter_eq_length_iff]
    simp only [decide_eq_true_eq]

/-- A log with three sources, a session, a second one for a staging layer, and an empty ledger. -/
def exCounting : Storage := ((exShelf.addSession 0 .writer).2.addLedger).2

/-- Two sources are staged, and one more is committed through the other session. -/
def exGrown : List SharedEvent :=
  [.own (.commit (exWrite 10 3 1) (.ok (some 0))), .others [exWrite 11 4 1] [],
    .own (.commit (exWrite 12 5 1) (.ok (some 1)))]

/-- After that the first staged source is purged through the other session. -/
def exShrunk : List SharedEvent := exGrown ++ [.others [] [.ofNat 10]]

theorem shared_recorded {staging : Staging} {engine : Nat} {start storage after : Storage}
    {past events : List SharedEvent} {event : SharedEvent}
    (hr : staging.SharedRun engine start past storage)
    (hs : staging.SharedStep engine storage event after) (he : past ++ [event] = events) :
    staging.SharedRun engine start events after :=
  he ▸ .step hr hs

/-- Before that purge a rollback counts two and removes two sources. After it a rollback counts two
and removes one. -/
theorem rollback_counts_tickets_shared :
    let staging : Staging := ⟨0, .plain 1⟩
    exCounting.Stages staging 0 ∧ exCounting.ledger 0 = [] ∧
    (∃ storage, staging.SharedRun 0 exCounting exGrown storage ∧
      ((staging.rollback .never none storage).2.logIds 0).length + 2 =
        (storage.logIds 0).length) ∧
    ∃ storage, staging.SharedRun 0 exCounting exShrunk storage ∧
      (staging.rollback .never none storage).1 = .ok 2 ∧
      (storage.removed 0 (staging.rollback .never none storage).2).Perm [.ofNat 12] ∧
      ((staging.rollback .never none storage).2.logIds 0).length + 2 ≠
        (storage.logIds 0).length := by
  intro staging
  have hstages : exCounting.Stages staging 0 := ⟨⟨_, rfl, rfl⟩, by decide, by decide⟩
  have hreached {events : List SharedEvent} {storage : Storage}
      (hr : staging.SharedRun 0 exCounting events storage)
      (hd : (exCounting.logIds 0 ++ committedIds events).Nodup) : storage.Stages staging 0 :=
    (shares_run hstages rfl hr hd).stages
  -- the answers are checked call by call
  have hfirst : staging.SharedRun 0 exCounting (exGrown.take 1) _ :=
    shared_recorded .refl (.own (by simp) (.tracked _ (exWrite 10 3 1) .never .never))
      (by decide +kernel)
  have hcommitted : staging.SharedRun 0 exCounting (exGrown.take 2) _ :=
    shared_recorded hfirst (.others (disturbs_commitSession (hreached hfirst (by decide +kernel)) 0
      rfl rfl (exWrite 11 4 1) .never)) (by decide +kernel)
  have hgrown : staging.SharedRun 0 exCounting exGrown _ :=
    shared_recorded hcommitted (.own (by simp) (.tracked _ (exWrite 12 5 1) .never .never))
      (by decide +kernel)
  have hshrunk : staging.SharedRun 0 exCounting exShrunk _ :=
    shared_recorded hgrown (.others (disturbs_purgeSession (hreached hgrown (by decide +kernel)) 0
      rfl rfl (.ofNat 10))) (by decide +kernel)
  have hcounts {events : List SharedEvent} {storage : Storage}
      (hr : staging.SharedRun 0 exCounting events storage)
      (hd : (exCounting.logIds 0 ++ committedIds events).Nodup)
      (hok : (staging.rollback .never none storage).1 = .ok 2) := by
    have hb : staging.rollback .never none storage =
        (.ok 2, (staging.rollback .never none storage).2) := Prod.ext hok rfl
    exact rollback_counts_tickets hstages rfl hr hd hb
  obtain ⟨-, -, -, -, -, -, hall⟩ := hcounts hgrown (by decide +kernel) (by decide +kernel)
  obtain ⟨-, -, -, -, hremoved, -, hsome⟩ := hcounts hshrunk (by decide +kernel) (by decide +kernel)
  refine ⟨hstages, rfl, ⟨_, hgrown, hall.mpr (by decide +kernel)⟩, _, hshrunk, by decide +kernel,
    hremoved.trans (List.Perm.of_eq (by decide +kernel)), mt hsome.mp (by decide +kernel)⟩

/-- The only staged source was purged through the other session. The rollback counts one, and the
log is what it was. -/
theorem rollback_counts_purged :
    let staging : Staging := ⟨0, .plain 1⟩
    let committed := staging.commitTracked (exWrite 10 3 1) .never .never exCounting
    let purged := committed.2.purgeSession 0 (.ofNat 10)
    let rolledBack := staging.rollback .never none purged.2
    committed.1 = .ok (some 0) ∧ purged.1 = .ok () ∧ rolledBack.1 = .ok 1 ∧
    purged.2.logIds 0 = [.ofNat 7, .ofNat 8, .ofNat 9] ∧
    rolledBack.2.logIds 0 = purged.2.logIds 0 ∧
    ¬ ∀ count, rolledBack.1 = .ok count →
      (rolledBack.2.logIds 0).length + count = (purged.2.logIds 0).length := by
  intro staging committed purged rolledBack
  have hcount : rolledBack.1 = .ok 1 := by decide +kernel
  have hsame : rolledBack.2.logIds 0 = purged.2.logIds 0 := by decide +kernel
  refine ⟨by decide +kernel, by decide +kernel, hcount, by decide +kernel, hsame, fun hall => ?_⟩
  have hfewer := hall 1 hcount
  rw [hsame] at hfewer
  exact Nat.succ_ne_self _ hfewer

end LeaseLog
