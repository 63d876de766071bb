import LeaseLog.Proofs.Storage.Purge
import LeaseLog.Proofs.Storage.Scripts
import LeaseLog.Staging
import Mathlib.Data.List.Induction

/-!
# Rolling back staged commits

A rollback purges the sources that a staging layer has tickets for, the newest one first. As long as
they are the last ones of the log, each purge takes the newest source out, which is always possible.
So whenever the rollback ends, the log has lost its newest sources and nothing else, and the tickets
that are left are those of the sources that are left.

Results:
1. `liveSlots_clear_last`: to empty the slot of the newest ticket is to drop that ticket.
2. `purgeAll_round`: every round of a rollback reads the ledger anew.
3. `takesBack_purgeAll`: what a rollback has done whenever it ends.
4. `rollback_takes_back`: a rollback leads to the log without the tracked sources, at once or when
   it is resumed.
5. `rollback_misses_purged`: that is not the log from before, if somebody purged an older source.
-/

namespace LeaseLog

/-! ## Definitions -/

/-- A source was committed to the log `origin`, and commits and purges made `current` of it. No
identifier came twice, and everything that was in `origin` is still there. -/
structure LogState.Precedes (origin : LogState) (source : Source) (current : LogState) : Prop where
  reachable : origin.Reachable
  led : ∃ next committed, origin.commit source = (true, next) ∧ next.Leads committed current ∧
    ((origin.sources ++ source :: committed).map Source.id).Nodup
  kept : ∀ kept ∈ origin.sources, kept ∈ current.sources

/-- The sources that a staging layer has tickets for are the last ones in the log of an engine, and
they are in the order of their tickets. -/
structure Storage.Tracks (storage : Storage) (staging : Staging) (engine : Nat)
    (earlier tracked : List Source) : Prop where
  writes : storage.Writes staging.store.sessionIndex engine
  sources : (storage.stateOf engine).sources = earlier ++ tracked
  distinct : ((earlier ++ tracked).map Source.id).Nodup
  tickets : (Staging.liveSlots 0 (storage.ledger staging.ledger)).map Prod.snd =
    tracked.map Source.id

/-- A rollback came to its end, or as far as the sources of `kept`. -/
structure Storage.TakesBack (before : Storage) (staging : Staging) (engine : Nat)
    (earlier kept : List Source) (after : Storage) : Prop where
  tracks : after.Tracks staging engine earlier kept
  tickets : staging.tickets after = (staging.tickets before).take kept.length
  others : ∀ other, other ≠ engine → after.stateOf other = before.stateOf other
  ledgers : ∀ other, other ≠ staging.ledger → after.ledger other = before.ledger other
  sessions : after.sessions = before.sessions

/-! ## 1. The ledger -/

open Staging LayerLemmas ScriptLemmas

namespace RollbackLemmas

theorem le_of_mem_liveSlots {slots : List (Option Ident)} :
    ∀ {first : Nat} {slot : Nat × Ident}, slot ∈ liveSlots first slots → first ≤ slot.1 := by
  induction slots with
  | nil =>
    intro first slot h
    cases h
  | cons head slots ih =>
    intro first slot h
    cases head with
    | none => exact Nat.le_of_succ_le (ih h)
    | some id =>
      rcases List.mem_cons.mp h with rfl | h
      · exact Nat.le_refl _
      · exact Nat.le_of_succ_le (ih h)

theorem pairwise_liveSlots {slots : List (Option Ident)} :
    ∀ {first : Nat}, (liveSlots first slots).Pairwise fun a b => a.1 < b.1 := by
  induction slots with
  | nil =>
    intro first
    exact .nil
  | cons head slots ih =>
    intro first
    cases head with
    | none => exact ih
    | some id => exact .cons (fun slot hm => le_of_mem_liveSlots hm) ih

theorem liveSlots_set {slots : List (Option Ident)} : ∀ {first index : Nat},
    liveSlots first (slots.set index none) =
      (liveSlots first slots).filter fun slot => slot.1 ≠ first + index := by
  induction slots with
  | nil =>
    intro first index
    rfl
  | cons head slots ih =>
    intro first index
    have hrest : (liveSlots (first + 1) slots).filter (fun slot => slot.1 ≠ first) =
        liveSlots (first + 1) slots := by
      rw [List.filter_eq_self]
      intro slot hm
      exact decide_eq_true (Nat.ne_of_gt (le_of_mem_liveSlots hm))
    cases index with
    | zero =>
      cases head with
      | none => exact hrest.symm
      | some id =>
        show liveSlots (first + 1) slots = ((first, id) :: _).filter _
        rw [List.filter_cons_of_neg (by simp)]
        exact hrest.symm
    | succ index =>
      have hshift : first + 1 + index = first + (index + 1) := by omega
      cases head with
      | none =>
        show liveSlots (first + 1) (slots.set index none) = _
        rw [ih, hshift]
        rfl
      | some id =>
        show (first, id) :: liveSlots (first + 1) (slots.set index none) = _
        rw [ih, hshift, liveSlots, List.filter_cons_of_pos (by simp)]

end RollbackLemmas

open RollbackLemmas

/-- To empty the slot of the newest ticket is to drop that ticket. -/
theorem liveSlots_clear_last {slots : List (Option Ident)} {kept : List (Nat × Ident)}
    {ticket : Nat} {id : Ident} (h : liveSlots 0 slots = kept ++ [(ticket, id)]) :
    liveSlots 0 (slots.set ticket none) = kept := by
  have hsorted : (liveSlots 0 slots).Pairwise fun a b => a.1 < b.1 := pairwise_liveSlots
  rw [h, List.pairwise_append] at hsorted
  have holder : kept.filter (fun slot => slot.1 ≠ ticket) = kept := by
    rw [List.filter_eq_self]
    intro slot hm
    have hlt : slot.1 < ticket := hsorted.2.2 slot hm _ (List.mem_singleton_self _)
    exact decide_eq_true (Nat.ne_of_lt hlt)
  rw [liveSlots_set, h, List.filter_append, Nat.zero_add, holder]
  simp

/-! ## 2. One round -/

theorem ledgers_purgeSession (storage : Storage) (index : Nat) (id : Ident) :
    (storage.purgeSession index id).2.ledgers = storage.ledgers ∧
      (storage.purgeSession index id).2.scripts = storage.scripts := by
  unfold Storage.purgeSession
  split
  · exact ⟨rfl, rfl⟩
  · split
    · exact ⟨rfl, rfl⟩
    · simp only [Storage.readLog]
      split
      · exact ⟨rfl, rfl⟩
      · exact ⟨rfl, rfl⟩

theorem ledgers_purge (store : Store) (storage : Storage) (id : Ident) :
    (store.purge id storage).2.ledgers = storage.ledgers := by
  obtain ⟨reached, hreached, -, hp⟩ := purge_eq store storage id
  rw [hp]
  split
  · exact hreached.ledgers
  · exact (ledgers_purgeSession reached _ id).1.trans hreached.ledgers

theorem ledger_clear (staging : Staging) (ticket : Nat) (storage : Storage) :
    (staging.clear ticket storage).ledger staging.ledger =
      (storage.ledger staging.ledger).set ticket none := by
  unfold Staging.clear Storage.ledger Storage.setLedger
  rw [List.getElem?_set]
  simp only [if_true]
  split
  · rfl
  · next hn => rw [List.getElem?_eq_none (Nat.le_of_not_lt hn)]; rfl

/-- The slots that a rollback walks through are the ones that it would find if it read the ledger
anew in each round. -/
theorem purgeAll_round (staging : Staging) (token : Token) (patience : Option Nat) (purged : Nat)
    (storage : Storage) :
    staging.purgeAll token patience purged
        (liveSlots 0 (storage.ledger staging.ledger)).reverse storage =
      if isCalledOff token patience purged storage then (.error .cancelled, storage)
      else
        match (liveSlots 0 (storage.ledger staging.ledger)).getLast? with
        | none => (.ok purged, storage)
        | some (ticket, id) =>
          match staging.store.purge id storage with
          | (.error cause, storage) => (.error cause, storage)
          | (.ok (), storage) =>
            let storage := staging.clear ticket storage
            staging.purgeAll token patience (purged + 1)
              (liveSlots 0 (storage.ledger staging.ledger)).reverse storage := by
  rcases List.eq_nil_or_concat' (liveSlots 0 (storage.ledger staging.ledger)) with
    hl | ⟨kept, ⟨ticket, id⟩, hl⟩
  · rw [hl]
    rfl
  · rw [hl, List.reverse_concat, List.getLast?_concat, Staging.purgeAll]
    split
    · rfl
    · have hledger := ledgers_purge staging.store storage id
      simp only
      generalize staging.store.purge id storage = outcome at hledger ⊢
      obtain ⟨cause | _, reached⟩ := outcome
      · rfl
      · have hslots : reached.ledger staging.ledger = storage.ledger staging.ledger :=
          congrArg (fun ledgers => (ledgers[staging.ledger]?).getD []) hledger
        simp only
        rw [ledger_clear, hslots, liveSlots_clear_last hl]

/-! ## 3. All rounds -/

section

variable {storage middle after : Storage} {staging : Staging} {engine : Nat}
  {earlier kept tracked : List Source} {newest : Source} {token : Token} {patience : Option Nat}

theorem length_tickets (h : storage.Tracks staging engine earlier tracked) :
    (staging.tickets storage).length = tracked.length := by
  have hlength := congrArg List.length h.tickets
  rw [List.length_map, List.length_map] at hlength
  rw [Staging.tickets, List.length_map, hlength]

theorem takesBack_refl (h : storage.Tracks staging engine earlier tracked) :
    storage.TakesBack staging engine earlier tracked storage := by
  refine ⟨h, ?_, fun _ _ => rfl, fun _ _ => rfl, rfl⟩
  rw [← length_tickets h, List.take_length]

theorem tracks_untouched (h : storage.Tracks staging engine earlier tracked)
    (hu : storage.Untouched after) : after.Tracks staging engine earlier tracked := by
  refine ⟨writes_untouched h.writes hu, ?_, h.distinct, ?_⟩
  · rw [stateOf_untouched hu]
    exact h.sources
  · rw [ledger_untouched hu]
    exact h.tickets

theorem takesBack_untouched (h : storage.Tracks staging engine earlier tracked)
    (hu : storage.Untouched after) : storage.TakesBack staging engine earlier tracked after := by
  refine ⟨tracks_untouched h hu, ?_, fun _ _ => stateOf_untouched hu _,
    fun _ _ => ledger_untouched hu _, hu.sessions⟩
  rw [Staging.tickets, ledger_untouched hu, ← length_tickets h]
  exact List.take_length.symm

theorem takesBack_trans (h : storage.TakesBack staging engine earlier tracked middle)
    (hm : middle.TakesBack staging engine earlier kept after)
    (hl : kept.length ≤ tracked.length) : storage.TakesBack staging engine earlier kept after := by
  refine ⟨hm.tracks, ?_, ?_, ?_, hm.sessions.trans h.sessions⟩
  · rw [hm.tickets, h.tickets, List.take_take, Nat.min_eq_left hl]
  · intro other hne
    rw [hm.others other hne, h.others other hne]
  · intro other hne
    rw [hm.ledgers other hne, h.ledgers other hne]

/-- The newest ticket is the one of the newest source. -/
theorem exists_newest_slot (h : storage.Tracks staging engine earlier (kept ++ [newest])) :
    ∃ slots ticket, liveSlots 0 (storage.ledger staging.ledger) = slots ++ [(ticket, newest.id)] ∧
      slots.map Prod.snd = kept.map Source.id := by
  have ht := h.tickets
  rw [List.map_append, List.map_eq_append_iff] at ht
  obtain ⟨slots, last, hl, hslots, hlast⟩ := ht
  obtain ⟨⟨ticket, id⟩, rfl, rfl⟩ := List.map_eq_singleton_iff.mp hlast
  exact ⟨slots, ticket, hl, hslots⟩

/-- One purge takes the newest source out of the log, and then its ticket out of the ledger. -/
theorem takesBack_newest (h : storage.Tracks staging engine earlier (kept ++ [newest]))
    {slots : List (Nat × Ident)} {ticket : Nat}
    (hl : liveSlots 0 (storage.ledger staging.ledger) = slots ++ [(ticket, newest.id)])
    (hslots : slots.map Prod.snd = kept.map Source.id) {result : Except RepositoryError Unit}
    (hp : storage.purgeSession staging.store.sessionIndex newest.id = (result, middle)) :
    result = .ok () ∧
      storage.TakesBack staging engine earlier kept (staging.clear ticket middle) := by
  have hsources : (storage.stateOf engine).sources = (earlier ++ kept) ++ [newest] := by
    rw [h.sources, List.append_assoc]
  have hdistinct := h.distinct
  rw [← List.append_assoc, List.map_append, List.nodup_append] at hdistinct
  obtain ⟨hnodup, -, hdisjoint⟩ := hdistinct
  have hfresh : ∀ source ∈ earlier ++ kept, source.id ≠ newest.id := by
    intro source hm
    exact hdisjoint _ (List.mem_map_of_mem hm) _ (List.mem_singleton_self _)
  obtain ⟨rfl, hpurges, hlog, -⟩ := purgeSession_newest h.writes hsources hfresh hp
  have hw := writes_purges h.writes hp
  have hledger : (staging.clear ticket middle).ledger staging.ledger =
      (storage.ledger staging.ledger).set ticket none := by
    rw [ledger_clear, Storage.ledger, hpurges.ledgers]
    rfl
  refine ⟨rfl, ⟨⟨hw.session, hw.bound, hw.log⟩, hlog, hnodup, ?_⟩, ?_, hpurges.others, ?_,
    hpurges.sessions⟩
  · rw [hledger, liveSlots_clear_last hl]
    exact hslots
  · have hlength : slots.length = kept.length := by
      have he := congrArg List.length hslots
      rwa [List.length_map, List.length_map] at he
    have htake : (slots.map Prod.fst).length = kept.length := by rw [List.length_map, hlength]
    rw [Staging.tickets, Staging.tickets, hledger, liveSlots_clear_last hl, hl, List.map_append,
      ← htake, List.take_left]
  · intro other hne
    have hother : (staging.clear ticket middle).ledger other = middle.ledger other := by
      unfold Staging.clear Storage.setLedger Storage.ledger
      rw [List.getElem?_set_ne (Ne.symm hne)]
    rw [hother, Storage.ledger, hpurges.ledgers]
    rfl

/-- What a rollback has done whenever it ends, and why it does. It may have gone through all
sources, it may have been called off, or a purge may have failed because the script says so. -/
theorem takesBack_purgeAll (tracked : List Source) :
    ∀ {storage : Storage} {purged : Nat} {result : Except RepositoryError Nat},
      storage.Tracks staging engine earlier tracked →
      staging.purgeAll token patience purged
        (liveSlots 0 (storage.ledger staging.ledger)).reverse storage = (result, after) →
      ∃ kept gone, tracked = kept ++ gone ∧ storage.TakesBack staging engine earlier kept after ∧
        ((kept = [] ∧ result = .ok (purged + gone.length)) ∨
          (isCalledOff token patience (purged + gone.length) after = true ∧
            result = .error .cancelled) ∨
          ∃ cause, (staging.store.purgeFaults storage)[gone.length]? = some (some cause) ∧
            kept ≠ [] ∧ result = .error cause) := by
  induction tracked using List.reverseRecOn with
  | nil =>
    intro storage purged result h hr
    have hnone : liveSlots 0 (storage.ledger staging.ledger) = [] :=
      List.map_eq_nil_iff.mp h.tickets
    rw [purgeAll_round, hnone] at hr
    split at hr
    · next hc =>
      cases hr
      exact ⟨[], [], rfl, takesBack_refl h, .inr (.inl ⟨hc, rfl⟩)⟩
    · cases hr
      exact ⟨[], [], rfl, takesBack_refl h, .inl ⟨rfl, rfl⟩⟩
  | append_singleton tracked newest ih =>
    intro storage purged result h hr
    obtain ⟨slots, ticket, hl, hslots⟩ := exists_newest_slot h
    obtain ⟨reached, hreached, hfaults, hp⟩ := purge_eq staging.store storage newest.id
    rw [purgeAll_round, hl, List.getLast?_concat] at hr
    split at hr
    · next hc =>
      cases hr
      exact ⟨tracked ++ [newest], [], (List.append_nil _).symm, takesBack_refl h,
        .inr (.inl ⟨hc, rfl⟩)⟩
    · simp only [hp] at hr
      cases hf : (staging.store.purgeFaults storage)[0]?.join with
      | some cause =>
        rw [hf] at hr
        cases hr
        exact ⟨tracked ++ [newest], [], (List.append_nil _).symm, takesBack_untouched h hreached,
          .inr (.inr ⟨cause, Option.join_eq_some_iff.mp hf, by simp, rfl⟩)⟩
      | none =>
        simp only [hf] at hr
        have hreachedTracks := tracks_untouched h hreached
        have hlast := ledger_untouched hreached staging.ledger ▸ hl
        generalize hs : reached.purgeSession staging.store.sessionIndex newest.id = outcome at hr
        obtain ⟨verdict, middle⟩ := outcome
        obtain ⟨rfl, hround⟩ := takesBack_newest hreachedTracks hlast hslots hs
        obtain ⟨kept, gone, rfl, hrest, hend⟩ := ih hround.tracks hr
        have hfirst : storage.TakesBack staging engine earlier (kept ++ gone)
            (staging.clear ticket middle) :=
          takesBack_trans (takesBack_untouched h hreached) hround (by simp)
        have hlater : staging.store.purgeFaults (staging.clear ticket middle) =
            (staging.store.purgeFaults storage).tail := by
          rw [← hfaults]
          refine purgeFaults_congr ?_
          have hscripts := (ledgers_purgeSession reached staging.store.sessionIndex newest.id).2
          rwa [hs] at hscripts
        refine ⟨kept, gone ++ [newest], List.append_assoc _ _ _,
          takesBack_trans hfirst hrest (by simp), ?_⟩
        rw [hlater, List.getElem?_tail, Nat.add_assoc, Nat.add_comm 1] at hend
        rwa [List.length_append, List.length_singleton]

/-- The state of a log without the sources behind `earlier`. -/
theorem stateOf_tracks (h : storage.Tracks staging engine earlier []) :
    storage.stateOf engine = LogState.empty.commitAll earlier := by
  have hs := h.sources
  rw [List.append_nil] at hs
  rw [← hs]
  exact (commitAll_of_applyAll (replay_of_reachable h.writes.log)).symm

theorem origin_of_precedes (h : storage.Tracks staging engine earlier (newest :: kept))
    {origin : LogState} (ho : origin.Precedes newest (storage.stateOf engine)) :
    LogState.empty.commitAll earlier = origin := by
  obtain ⟨next, committed, hc, hleads, hdistinct⟩ := ho.led
  have he : earlier = origin.sources := earlier_of_leads hc hleads hdistinct h.sources ho.kept
  rw [he]
  exact commitAll_of_applyAll (replay_of_reachable ho.reachable)

end

/-! ## 4. The result -/

/-- If the sources that a staging layer has tickets for are the last ones of the log, a rollback
purges them all and counts them, unless it is called off or the script lets a purge fail. Then no
ticket is left, and the log is in the state that its other sources lead to: the state to which the
first one of them was committed, as long as nothing was purged since then that was in the log.

If it ends early it has purged some of them, the newest ones, and the tickets of the other ones are
left. A rollback that is successful later comes to the same end. -/
theorem rollback_takes_back {storage after : Storage} {staging : Staging} {engine : Nat}
    {earlier tracked : List Source} {token : Token} {patience : Option Nat}
    {result : Except RepositoryError Nat} (h : storage.Tracks staging engine earlier tracked)
    (hr : staging.rollback token patience storage = (result, after)) :
    ((∀ purged ≤ tracked.length, isCalledOff token patience purged after = false) →
      (∀ fault ∈ (staging.store.purgeFaults storage).take tracked.length, fault = none) →
      result = .ok tracked.length) ∧
    (∀ count, result = .ok count → count = tracked.length ∧ staging.tickets after = [] ∧
      storage.TakesBack staging engine earlier [] after ∧
      after.stateOf engine = LogState.empty.commitAll earlier) ∧
    (∀ first later origin, tracked = first :: later →
      origin.Precedes first (storage.stateOf engine) →
      LogState.empty.commitAll earlier = origin) ∧
    (∀ cause, result = .error cause → ∃ kept gone, tracked = kept ++ gone ∧
      ((cause = .cancelled ∧ isCalledOff token patience gone.length after = true) ∨
        (kept ≠ [] ∧ (staging.store.purgeFaults storage)[gone.length]? = some (some cause))) ∧
      storage.TakesBack staging engine earlier kept after ∧
      ∀ (token : Token) (patience : Option Nat) (resumed last : Storage) (count : Nat),
        after.Untouched resumed →
        staging.rollback token patience resumed = (.ok count, last) →
        count = kept.length ∧ staging.tickets last = [] ∧
          storage.TakesBack staging engine earlier [] last ∧
          last.stateOf engine = LogState.empty.commitAll earlier) := by
  have hlength : ∀ {kept gone : List Source}, tracked = kept ++ gone → kept = [] →
      gone.length = tracked.length := by
    rintro kept gone rfl rfl
    rfl
  obtain ⟨kept, gone, hsplit, htakes, hend⟩ := takesBack_purgeAll tracked h hr
  rw [Nat.zero_add] at hend
  refine ⟨?_, ?_, ?_, ?_⟩
  · intro hquiet hpass
    rcases hend with ⟨hk, rfl⟩ | ⟨hc, _⟩ | ⟨cause, hfault, hk, _⟩
    · rw [hlength hsplit hk]
    · have hle : gone.length ≤ tracked.length := by rw [hsplit, List.length_append]; omega
      rw [hquiet _ hle] at hc
      cases hc
    · -- the purge that fails is one of the first ones, and none of them does
      have hlt : gone.length < tracked.length := by
        have hpos := List.length_pos_iff.mpr hk
        rw [hsplit, List.length_append]
        omega
      have hm : some cause ∈ (staging.store.purgeFaults storage).take tracked.length := by
        refine List.mem_of_getElem? (i := gone.length) ?_
        rw [List.getElem?_take_of_lt hlt, hfault]
      cases hpass _ hm
  · rintro count rfl
    rcases hend with ⟨rfl, he⟩ | ⟨_, he⟩ | ⟨_, _, _, he⟩
    · cases he
      exact ⟨hlength hsplit rfl, htakes.tickets, htakes, stateOf_tracks htakes.tracks⟩
    · cases he
    · cases he
  · rintro first later origin rfl ho
    exact origin_of_precedes h ho
  · rintro cause rfl
    refine ⟨kept, gone, hsplit, ?_, htakes, ?_⟩
    · rcases hend with ⟨_, he⟩ | ⟨hc, he⟩ | ⟨_, hfault, hk, he⟩
      · cases he
      · cases he
        exact .inl ⟨rfl, hc⟩
      · cases he
        exact .inr ⟨hk, hfault⟩
    · intro token patience resumed last count hu hlast
      have hresumed := takesBack_untouched htakes.tracks hu
      obtain ⟨left, taken, rfl, hrest, hfinal⟩ := takesBack_purgeAll kept hresumed.tracks hlast
      rw [Nat.zero_add] at hfinal
      rcases hfinal with ⟨rfl, he⟩ | ⟨_, he⟩ | ⟨_, _, _, he⟩
      · cases he
        have hwhole := takesBack_trans htakes (takesBack_trans hresumed hrest (by simp)) (by simp)
        exact ⟨rfl, hwhole.tickets, hwhole, stateOf_tracks hwhole.tracks⟩
      · cases he
      · cases he

/-- A log with three sources, of which the last two have tickets. The second purge is going to
fail. -/
def exStaged : Storage :=
  let script : FaultScript := ⟨[], [], [none, some (.backend "down")], [], []⟩
  let (_, storage) := exShelf.addScript script
  let (_, storage) := storage.addLedger
  storage.setLedger 0 [none, some (.ofNat 8), some (.ofNat 9)]

/-- The rollback ends early, after one purge. When it is resumed, the first source is left. -/
theorem rollback_takes_back_resumed :
    let staging : Staging := ⟨0, .scripted 0 0⟩
    let interrupted := staging.rollback .never none exStaged
    let resumed := staging.rollback .never none interrupted.2
    exStaged.Tracks staging 0 [exWrite 7 1 1] [exWrite 8 2 1, exWrite 9 1 2] ∧
    interrupted.1 = .error (.backend "down") ∧ staging.tickets interrupted.2 = [1] ∧
    resumed.1 = .ok 1 ∧ resumed.2.stateOf 0 = LogState.empty.commitAll [exWrite 7 1 1] := by
  intro staging interrupted resumed
  have htracks : exStaged.Tracks staging 0 [exWrite 7 1 1] [exWrite 8 2 1, exWrite 9 1 2] :=
    ⟨⟨⟨_, rfl, rfl, rfl⟩, by decide, .commit _ (.commit _ (.commit _ .empty))⟩, rfl, by decide, rfl⟩
  obtain ⟨-, -, -, hinterrupted⟩ := rollback_takes_back htracks (Prod.eta interrupted).symm
  have hfailed : interrupted.1 = .error (.backend "down") := rfl
  obtain ⟨kept, gone, -, -, -, hlater⟩ := hinterrupted _ hfailed
  have hok : resumed = (.ok 1, resumed.2) := rfl
  obtain ⟨-, -, -, hstate⟩ := hlater .never none interrupted.2 resumed.2 1 Untouched.refl hok
  exact ⟨htracks, hfailed, rfl, rfl, hstate⟩

/-- One more source is staged, and then somebody purges the second one. -/
def exUndermined : Storage :=
  let (_, storage) := exShelf.addSession 0 .writer
  let (_, storage) := storage.addLedger
  let (_, storage) := (Repository.staging 0 (.plain 1)).commit (exWrite 10 3 1) .never storage
  (storage.purgeSession 0 (.ofNat 8)).2

/-- The tracked source is the last one of the log, and the rollback is successful. But there is no
way back to the log that the source was committed to, since one source of it is gone for good. -/
theorem rollback_misses_purged :
    let staging : Staging := ⟨0, .plain 1⟩
    exUndermined.Tracks staging 0 [exWrite 7 1 1, exWrite 9 1 2] [exWrite 10 3 1] ∧
    (exChained.commit (exWrite 10 3 1)).1 = true ∧
    (exChained.commit (exWrite 10 3 1)).2.purge (.ofNat 8) = .ok (exUndermined.stateOf 0) ∧
    (staging.rollback .never none exUndermined).1 = .ok 1 ∧
    (staging.rollback .never none exUndermined).2.stateOf 0 ≠ exChained := by
  have hcommit : (exChained.commit (exWrite 10 3 1)).2.Reachable :=
    .commit _ (.commit _ (.commit _ (.commit _ .empty)))
  have hpurge : (exChained.commit (exWrite 10 3 1)).2.purge (.ofNat 8) =
      .ok (exUndermined.stateOf 0) := rfl
  refine ⟨⟨⟨⟨_, rfl, rfl, rfl⟩, by decide, hcommit.purge hpurge⟩, rfl, by decide, rfl⟩, rfl, hpurge,
    rfl, ?_⟩
  intro he
  have hsources := congrArg (fun state : LogState => state.sources.length) he
  cases hsources

end LeaseLog
