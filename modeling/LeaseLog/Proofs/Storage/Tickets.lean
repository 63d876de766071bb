import LeaseLog.Proofs.Storage.Rollback
import Mathlib.Data.List.Nodup

/-!
# The tickets of a staging layer

A ledger and a log are written one after the other. A commit reaches the log first, and then gets its
ticket; a rollback takes a source out of the log first, and then empties the slot of its ticket. A
call may fail between any two purges, and slots are emptied in any order. So what a ledger says about
a log is not read off one storage but off the calls that led to it: a ticket is live from the commit
that was given it to the first call that ends it.

Others may use the engine at the same time, as long as they purge nothing.

Results:
1. `staged_append`: which commits are staged after more calls.
2. `drops_purgeAll`: a rollback drops the newest tickets together with their sources, wherever it
   stops.
3. `keeps_step`: every call keeps the ledger in agreement with the calls so far.
4. `ticket_ledger_law`: tickets are never given out twice, and they are live, with their sources in
   the log, until they are released or purged.
-/

namespace LeaseLog

/-! ## Definitions -/

/-- A call to a staging repository with its answer. A commit is answered with its ticket. Of a
rollback it is recorded which identifiers the log of the engine lost by it. -/
inductive StagingEvent
  | commit (source : Source) (answer : Except RepositoryError (Option Nat))
  | release (ticket : Nat) (answer : Option Ident)
  | rollback (purged : List Ident) (answer : Except RepositoryError Nat)
  | others
deriving DecidableEq

namespace StagingEvent

/-- A ticket of a source is ended by its release and by a rollback that purges the source. -/
def ends (ticket : Nat) (id : Ident) : StagingEvent → Bool
  | .release other _ => other = ticket
  | .rollback purged _ => id ∈ purged
  | .commit _ _ | .others => false

/-- The source of an accepted commit, with its ticket. -/
def accepted? : StagingEvent → Option (Nat × Source)
  | .commit source (.ok (some ticket)) => some (ticket, source)
  | .commit _ (.ok none) | .commit _ (.error _) | .release _ _ | .rollback _ _ | .others => none

end StagingEvent

/-- The sources of all accepted commits, with their tickets, in commit order. -/
def accepted (events : List StagingEvent) : List (Nat × Source) :=
  events.filterMap StagingEvent.accepted?

/-- Those whose tickets no later call has ended: the live tickets, in commit order. -/
def staged : List StagingEvent → List (Nat × Source)
  | [] => []
  | event :: later =>
    match event.accepted? with
    | none => staged later
    | some (ticket, source) =>
      if later.any (StagingEvent.ends ticket source.id) then staged later
      else (ticket, source) :: staged later

/-- Accepted sources have identifiers of their own. -/
def DistinctSources (events : List StagingEvent) : Prop :=
  ((accepted events).map fun entry => entry.2.id).Nodup

namespace Storage

/-- There is a session on the engine behind a staging layer, whatever it may do, and a ledger. -/
structure Stages (storage : Storage) (staging : Staging) (engine : Nat) : Prop where
  session : ∃ session, storage.sessions[staging.store.sessionIndex]? = some session ∧
    session.engine = engine
  bound : engine < storage.engines.length
  ledger : staging.ledger < storage.ledgers.length

/-- What others do: they leave the ledger alone, and every source stays in the log. -/
structure Spares (before : Storage) (staging : Staging) (engine : Nat) (after : Storage) :
    Prop where
  stages : after.Stages staging engine
  ledger : after.ledger staging.ledger = before.ledger staging.ledger
  sources : ∀ source ∈ (before.stateOf engine).sources, source ∈ (after.stateOf engine).sources

/-- The identifiers that were in the log of an engine and no longer are. -/
def removed (before : Storage) (engine : Nat) (after : Storage) : List Ident :=
  ((before.stateOf engine).sources.map Source.id).filter fun id =>
    id ∉ (after.stateOf engine).sources.map Source.id

/-- The log of an engine lost the sources of some identifiers; its sessions are as before, and so is
the number of engines and ledgers. -/
structure Drops (before : Storage) (engine : Nat) (ids : List Ident) (after : Storage) : Prop where
  sources : (after.stateOf engine).sources =
    (before.stateOf engine).sources.filter fun source => source.id ∉ ids
  sessions : after.sessions = before.sessions
  engines : after.engines.length = before.engines.length
  ledgers : after.ledgers.length = before.ledgers.length

end Storage

namespace Staging

/-- One call, or something that others do. A commit that does not ask for its ticket gets one all the
same. -/
inductive Step (staging : Staging) (engine : Nat) : Storage → StagingEvent → Storage → Prop
  | tracked (storage : Storage) (source : Source) (token watched : Token) :
      Step staging engine storage
        (.commit source (staging.commitTracked source token watched storage).1)
        (staging.commitTracked source token watched storage).2
  | plain (storage : Storage) (source : Source) (token : Token) :
      Step staging engine storage
        (.commit source (staging.commitTracked source token .never storage).1)
        ((Repository.staging staging.ledger staging.store).commit source token storage).2
  | release (storage : Storage) (ticket : Nat) :
      Step staging engine storage (.release ticket (staging.release ticket storage).1)
        (staging.release ticket storage).2
  | rollback (storage : Storage) (token : Token) (patience : Option Nat) :
      Step staging engine storage
        (.rollback (storage.removed engine (staging.rollback token patience storage).2)
          (staging.rollback token patience storage).1)
        (staging.rollback token patience storage).2
  | others {before after : Storage} : before.Spares staging engine after →
      Step staging engine before .others after

/-- Calls one after another. -/
inductive Run (staging : Staging) (engine : Nat) (start : Storage) :
    List StagingEvent → Storage → Prop
  | refl : Run staging engine start [] start
  | step {past : List StagingEvent} {storage after : Storage} {event : StagingEvent} :
      Run staging engine start past storage → Step staging engine storage event after →
      Run staging engine start (past ++ [event]) after

/-- A ledger agrees with the calls that led to it. -/
structure Keeps (staging : Staging) (engine : Nat) (events : List StagingEvent)
    (storage : Storage) : Prop where
  stages : storage.Stages staging engine
  slots : liveSlots 0 (storage.ledger staging.ledger) =
    (staged events).map fun entry => (entry.1, entry.2.id)
  given : ∀ entry ∈ accepted events, entry.1 < (storage.ledger staging.ledger).length
  fresh : ((accepted events).map Prod.fst).Nodup
  logged : ∀ entry ∈ staged events, entry.2 ∈ (storage.stateOf engine).sources

end Staging

/-! ## 1. Calls -/

open Staging LayerLemmas RollbackLemmas

section

variable {past later events : List StagingEvent} {event : StagingEvent}

@[simp] theorem accepted_append :
    accepted (past ++ later) = accepted past ++ accepted later := List.filterMap_append

theorem DistinctSources.of_append (h : DistinctSources (past ++ later)) : DistinctSources past := by
  rw [DistinctSources, accepted_append, List.map_append] at h
  exact h.of_append_left

/-- More calls end some of the tickets that were live, and give out new ones. -/
theorem staged_append (past later : List StagingEvent) :
    staged (past ++ later) =
      (staged past).filter (fun entry => !later.any (StagingEvent.ends entry.1 entry.2.id)) ++
        staged later := by
  induction past with
  | nil => rfl
  | cons event past ih =>
    rw [List.cons_append, staged, staged]
    cases event.accepted? with
    | none => exact ih
    | some entry =>
      obtain ⟨ticket, source⟩ := entry
      simp only [List.any_append]
      cases past.any (StagingEvent.ends ticket source.id) with
      | true => simpa using ih
      | false =>
        cases hlater : later.any (StagingEvent.ends ticket source.id) <;> simp [ih, hlater]

/-- A call that is no accepted commit gives out no ticket. -/
theorem staged_concat_of_none (h : event.accepted? = none) :
    staged (past ++ [event]) =
      (staged past).filter fun entry => !event.ends entry.1 entry.2.id := by
  rw [staged_append, staged, h]
  simp [staged]

theorem accepted_concat_of_none (h : event.accepted? = none) :
    accepted (past ++ [event]) = accepted past := by
  rw [accepted_append, accepted, accepted, List.filterMap_cons_none h]
  exact List.append_nil _

/-- An accepted commit gives out one ticket and ends none. -/
theorem staged_concat_commit {source : Source} {ticket : Nat} :
    staged (past ++ [.commit source (.ok (some ticket))]) = staged past ++ [(ticket, source)] := by
  rw [staged_append]
  simp [staged, StagingEvent.accepted?, StagingEvent.ends]

theorem staged_sublist (events : List StagingEvent) : (staged events).Sublist (accepted events) := by
  induction events with
  | nil => exact .slnil
  | cons event later ih =>
    rw [staged, accepted, List.filterMap_cons]
    cases event.accepted? with
    | none => exact ih
    | some entry =>
      obtain ⟨ticket, source⟩ := entry
      simp only
      split
      · exact ih.cons _
      · exact ih.cons_cons _

theorem ticket_mem_of_staged {source : Source} {ticket : Nat} (h : (ticket, source) ∈ staged events) :
    ticket ∈ (accepted events).map Prod.fst :=
  List.mem_map.mpr ⟨_, (staged_sublist events).subset h, rfl⟩

/-- An accepted commit is staged until a call ends its ticket, and from then on the ticket is not
live any more, since it is not given out again. -/
theorem mem_staged_iff_of_fresh (hf : ((accepted events).map Prod.fst).Nodup) {source : Source}
    {ticket : Nat} (he : events = past ++ .commit source (.ok (some ticket)) :: later)
    {other : Source} :
    (ticket, other) ∈ staged events ↔
      other = source ∧ later.any (StagingEvent.ends ticket source.id) = false := by
  subst he
  have haccepted : accepted (StagingEvent.commit source (.ok (some ticket)) :: later) =
      (ticket, source) :: accepted later := rfl
  rw [accepted_append, haccepted, List.map_append, List.map_cons, List.nodup_append,
    List.nodup_cons] at hf
  obtain ⟨-, ⟨hlater, -⟩, hpast⟩ := hf
  have hnotpast : (ticket, other) ∉ staged past := fun hm =>
    hpast ticket (ticket_mem_of_staged hm) ticket List.mem_cons_self rfl
  have hnotlater : (ticket, other) ∉ staged later := fun hm => hlater (ticket_mem_of_staged hm)
  rw [staged_append, List.mem_append, List.mem_filter, staged]
  simp only [StagingEvent.accepted?]
  cases hends : later.any (StagingEvent.ends ticket source.id) with
  | true => simp [hnotpast, hnotlater]
  | false => simp [hnotpast, hnotlater]

/-- A ticket that is released was live before, so it is not given out later and not live again. -/
theorem not_mem_staged_of_released (hf : ((accepted events).map Prod.fst).Nodup) {ticket : Nat}
    {answer : Option Ident} {source other : Source}
    (he : events = past ++ .release ticket answer :: later) (hl : (ticket, source) ∈ staged past) :
    (ticket, other) ∉ staged events := by
  subst he
  have haccepted : accepted (StagingEvent.release ticket answer :: later) = accepted later := rfl
  rw [accepted_append, haccepted, List.map_append, List.nodup_append] at hf
  rw [staged_append, List.mem_append, List.mem_filter]
  rintro (⟨-, hends⟩ | hm)
  · simp [StagingEvent.ends] at hends
  · exact hf.2.2 ticket (ticket_mem_of_staged hl) ticket (ticket_mem_of_staged hm) rfl

end

/-! ## 2. A rollback -/

namespace TicketLemmas

variable {storage middle after : Storage} {staging : Staging} {engine : Nat}
  {slots : List (Option Ident)} {id : Ident}

theorem liveSlots_concat : ∀ {first : Nat},
    liveSlots first (slots ++ [some id]) = liveSlots first slots ++ [(first + slots.length, id)] := by
  induction slots with
  | nil =>
    intro first
    rfl
  | cons head slots ih =>
    intro first
    have hshift : first + 1 + slots.length = first + (slots.length + 1) := by omega
    cases head with
    | none =>
      show liveSlots (first + 1) (slots ++ [some id]) = _
      rw [ih, hshift]
      rfl
    | some other =>
      show (first, other) :: liveSlots (first + 1) (slots ++ [some id]) = _
      rw [ih, hshift]
      rfl

theorem mem_liveSlots {index : Nat} : ∀ {first : Nat},
    (first + index, id) ∈ liveSlots first slots ↔ slots[index]?.join = some id := by
  induction slots generalizing index with
  | nil =>
    intro first
    simp [liveSlots]
  | cons head slots ih =>
    intro first
    have hfirst : ∀ other, (first, other) ∉ liveSlots (first + 1) slots := fun other hm =>
      Nat.not_succ_le_self first (le_of_mem_liveSlots hm)
    cases index with
    | zero => cases head <;> simp [liveSlots, hfirst, eq_comm]
    | succ index =>
      have hshift : first + (index + 1) = first + 1 + index := by omega
      rw [hshift]
      cases head with
      | none => exact ih
      | some other =>
        have hne : first + 1 + index ≠ first := by omega
        simpa [liveSlots, hne] using ih

theorem stages_of_eq (h : storage.Stages staging engine) (hs : after.sessions = storage.sessions)
    (he : after.engines.length = storage.engines.length)
    (hl : after.ledgers.length = storage.ledgers.length) : after.Stages staging engine :=
  ⟨hs ▸ h.session, he ▸ h.bound, hl ▸ h.ledger⟩

theorem stages_untouched (h : storage.Stages staging engine) (hu : storage.Untouched after) :
    after.Stages staging engine :=
  stages_of_eq h hu.sessions (congrArg _ hu.engines) (congrArg _ hu.ledgers)

theorem stages_clear (h : storage.Stages staging engine) (ticket : Nat) :
    (staging.clear ticket storage).Stages staging engine :=
  stages_of_eq h rfl rfl List.length_set

theorem drops_untouched (h : storage.Untouched after) : storage.Drops engine [] after := by
  refine ⟨?_, h.sessions, congrArg _ h.engines, congrArg _ h.ledgers⟩
  rw [stateOf_untouched h]
  simp

theorem drops_trans {first later : List Ident} (h : storage.Drops engine first middle)
    (hm : middle.Drops engine later after) : storage.Drops engine (later ++ first) after := by
  refine ⟨?_, hm.sessions.trans h.sessions, hm.engines.trans h.engines, hm.ledgers.trans h.ledgers⟩
  rw [hm.sources, h.sources, List.filter_filter]
  refine List.filter_congr fun source _ => ?_
  simp [not_or]

/-- A purge through a session takes the sources of an identifier out of the log, or does nothing. -/
theorem drops_purgeSession (h : storage.Stages staging engine) (id : Ident)
    {result : Except RepositoryError Unit}
    (hp : storage.purgeSession staging.store.sessionIndex id = (result, after)) :
    (result = .ok () ∧ storage.Drops engine [id] after) ∨
      ((∃ cause, result = .error cause) ∧ storage.Untouched after) := by
  obtain ⟨session, hs, rfl⟩ := h.session
  unfold Storage.purgeSession at hp
  simp only [hs, Storage.readLog] at hp
  split at hp
  · cases hp
    exact .inr ⟨⟨_, rfl⟩, Untouched.refl⟩
  · split at hp
    · cases hp
      exact .inr ⟨⟨_, rfl⟩, ⟨rfl, rfl, rfl⟩⟩
    · next state hpurge =>
      cases hp
      refine .inl ⟨rfl, ?_, rfl, ?_, rfl⟩
      · have hstate : (storage.spend.setState session.engine state).stateOf session.engine = state :=
          SessionLemmas.stateOf_setState h.bound
        rw [hstate, sources_of_purge hpurge, LogState.without]
        simp
      · rw [SessionLemmas.length_engines_setState]
        rfl

/-- So does a purge through a store, which may also fail before it reaches its session. -/
theorem drops_purge (h : storage.Stages staging engine) (id : Ident)
    {result : Except RepositoryError Unit}
    (hp : staging.store.purge id storage = (result, after)) :
    (result = .ok () ∧ storage.Drops engine [id] after) ∨
      ((∃ cause, result = .error cause) ∧ storage.Untouched after) := by
  obtain ⟨reached, hreached, -, hstore⟩ := purge_eq staging.store storage id
  rw [hstore] at hp
  split at hp
  · cases hp
    exact .inr ⟨⟨_, rfl⟩, hreached⟩
  · rcases drops_purgeSession (stages_untouched h hreached) id hp with ⟨hok, hdrops⟩ | ⟨hfails, hu⟩
    · exact .inl ⟨hok, drops_trans (drops_untouched hreached) hdrops⟩
    · exact .inr ⟨hfails, hu.engines.trans hreached.engines, hu.sessions.trans hreached.sessions,
        hu.ledgers.trans hreached.ledgers⟩

/-- A ledger is no part of a log. -/
theorem drops_clear (h : storage.Drops engine [id] middle) (ticket : Nat) :
    storage.Drops engine [id] (staging.clear ticket middle) :=
  ⟨h.sources, h.sessions, h.engines, List.length_set.trans h.ledgers⟩

end TicketLemmas

open TicketLemmas

/-- Wherever a rollback stops, it has gone through some of the newest tickets. Their sources are no
longer in the log and their slots are empty, and nothing else has changed. If it is successful it
has gone through all of them, and it counts the tickets, whatever became of their sources. -/
theorem drops_purgeAll {staging : Staging} {engine : Nat} {token : Token} {patience : Option Nat}
    {after : Storage} (tracked : List (Nat × Ident)) :
    ∀ {storage : Storage} {purged : Nat} {result : Except RepositoryError Nat},
      storage.Stages staging engine →
      liveSlots 0 (storage.ledger staging.ledger) = tracked →
      staging.purgeAll token patience purged tracked.reverse storage = (result, after) →
      ∃ kept gone, tracked = kept ++ gone ∧ liveSlots 0 (after.ledger staging.ledger) = kept ∧
        (after.ledger staging.ledger).length = (storage.ledger staging.ledger).length ∧
        storage.Drops engine (gone.map Prod.snd) after ∧
        ∀ count, result = .ok count → kept = [] ∧ count = purged + gone.length := by
  -- the tickets go from the last one to the first one
  induction tracked using List.reverseRecOn with
  | nil =>
    intro storage purged result h hl hr
    rw [List.reverse_nil, Staging.purgeAll] at hr
    split at hr
    · cases hr
      exact ⟨[], [], rfl, hl, rfl, drops_untouched Untouched.refl, fun _ he => by cases he⟩
    · cases hr
      refine ⟨[], [], rfl, hl, rfl, drops_untouched Untouched.refl, fun count he => ?_⟩
      cases he
      exact ⟨rfl, rfl⟩
  | append_singleton tracked newest ih =>
    intro storage purged result h hl hr
    obtain ⟨ticket, id⟩ := newest
    have hstops : ∀ {cause : RepositoryError} {reached : Storage}, storage.Untouched reached →
        result = .error cause →
        ∃ kept gone, tracked ++ [(ticket, id)] = kept ++ gone ∧
          liveSlots 0 (reached.ledger staging.ledger) = kept ∧
          (reached.ledger staging.ledger).length = (storage.ledger staging.ledger).length ∧
          storage.Drops engine (gone.map Prod.snd) reached ∧
          ∀ count, result = .ok count → kept = [] ∧ count = purged + gone.length := by
      rintro cause reached hu rfl
      rw [ledger_untouched hu]
      exact ⟨_, [], (List.append_nil _).symm, hl, rfl, drops_untouched hu, fun _ he => by cases he⟩
    rw [List.reverse_concat, Staging.purgeAll] at hr
    split at hr
    · cases hr
      exact hstops Untouched.refl rfl
    · have hledgers := ledgers_purge staging.store storage id
      generalize hp : staging.store.purge id storage = outcome at hr hledgers
      obtain ⟨verdict, middle⟩ := outcome
      rcases drops_purge h id hp with ⟨rfl, hdrops⟩ | ⟨⟨cause, rfl⟩, hu⟩
      · have hledger : (staging.clear ticket middle).ledger staging.ledger =
            (storage.ledger staging.ledger).set ticket none := by
          rw [ledger_clear, Storage.ledger, hledgers]
          rfl
        have hround : storage.Drops engine [id] (staging.clear ticket middle) :=
          drops_clear hdrops ticket
        obtain ⟨kept, gone, rfl, hkept, hlength, hrest, hcount⟩ :=
          ih (stages_of_eq h hround.sessions hround.engines hround.ledgers)
            (hledger ▸ liveSlots_clear_last hl) hr
        refine ⟨kept, gone ++ [(ticket, id)], List.append_assoc _ _ _, hkept, ?_, ?_, ?_⟩
        · rw [hlength, hledger, List.length_set]
        · rw [List.map_append]
          exact drops_trans hround hrest
        · intro count he
          obtain ⟨hnone, hgone⟩ := hcount count he
          refine ⟨hnone, ?_⟩
          rw [hgone, List.length_append, List.length_singleton, Nat.add_right_comm, Nat.add_assoc]
      · cases hr
        exact hstops hu rfl

/-! ## 3. One call after another -/

namespace TicketLemmas

variable {storage after : Storage} {staging : Staging} {engine : Nat} {past : List StagingEvent}

/-- A commit gets the next ticket if it is accepted, and none otherwise. -/
theorem commitTracked_cases (h : storage.Stages staging engine) (source : Source)
    (token watched : Token) :
    ((staging.store.commit source token watched storage).1 = .ok true ∧
      (staging.commitTracked source token watched storage).1 =
        .ok (some (storage.ledger staging.ledger).length) ∧
      storage.Commits engine (some staging.ledger) source
        (staging.commitTracked source token watched storage).2) ∨
    ((staging.store.commit source token watched storage).1 ≠ .ok true ∧
      (∀ ticket, (staging.commitTracked source token watched storage).1 ≠ .ok (some ticket)) ∧
      storage.Untouched (staging.commitTracked source token watched storage).2) := by
  obtain ⟨session, hs, rfl⟩ := h.session
  have hsettles : storage.Settles session.engine none source
      (staging.store.commit source token watched storage) :=
    settles_store ⟨hs, h.bound, fun _ hl => by cases hl⟩
  unfold Staging.commitTracked
  generalize staging.store.commit source token watched storage = outcome at hsettles ⊢
  obtain ⟨verdict, reached⟩ := outcome
  rcases hsettles with ⟨hok, hcommits⟩ | ⟨hne, hu⟩
  · cases hok
    have hledger : reached.ledger staging.ledger = storage.ledger staging.ledger :=
      hcommits.ticket staging.ledger
    refine .inl ⟨rfl, ?_, commits_ticketed hcommits h.ledger⟩
    simp only [hledger]
  · rcases verdict with cause | _ | _
    · exact .inr ⟨hne, by simp, hu⟩
    · exact .inr ⟨hne, by simp, hu⟩
    · exact absurd rfl hne

theorem stages_commits {source : Source} {ledger? : Option Nat} (h : storage.Stages staging engine)
    (hc : storage.Commits engine ledger? source after) : after.Stages staging engine := by
  refine ⟨hc.sessions ▸ h.session, ?_, hc.count ▸ h.ledger⟩
  -- the log has a source at its end, so it is the one of an engine
  refine Nat.lt_of_not_le fun hle => ?_
  have hsources := hc.log.sources
  rw [Storage.stateOf, List.getElem?_eq_none hle] at hsources
  simp [LogState.empty] at hsources

theorem spares_untouched (h : storage.Stages staging engine) (hu : storage.Untouched after) :
    storage.Spares staging engine after := by
  refine ⟨stages_untouched h hu, ledger_untouched hu _, ?_⟩
  rw [stateOf_untouched hu]
  exact fun _ hm => hm

/-- What gives out no ticket and ends none leaves the agreement as it is. -/
theorem keeps_spared {event : StagingEvent} (h : staging.Keeps engine past storage)
    (hn : event.accepted? = none) (he : ∀ ticket id, event.ends ticket id = false)
    (hs : storage.Spares staging engine after) : staging.Keeps engine (past ++ [event]) after := by
  have hstaged : staged (past ++ [event]) = staged past := by
    rw [staged_concat_of_none hn, List.filter_eq_self]
    intro entry _
    rw [he]
    rfl
  refine ⟨hs.stages, ?_, ?_, ?_, ?_⟩
  · rw [hs.ledger, hstaged]
    exact h.slots
  · rw [hs.ledger, accepted_concat_of_none hn]
    exact h.given
  · rw [accepted_concat_of_none hn]
    exact h.fresh
  · rw [hstaged]
    exact fun entry hm => hs.sources _ (h.logged entry hm)

theorem keeps_commit (h : staging.Keeps engine past storage) (source : Source)
    (token watched : Token) :
    staging.Keeps engine
      (past ++ [.commit source (staging.commitTracked source token watched storage).1])
      (staging.commitTracked source token watched storage).2 := by
  rcases commitTracked_cases h.stages source token watched with
    ⟨-, hanswer, hcommits⟩ | ⟨-, hanswer, hu⟩
  · have hledger : (staging.commitTracked source token watched storage).2.ledger staging.ledger =
        storage.ledger staging.ledger ++ [some source.id] := by
      rw [hcommits.ticket, if_pos rfl]
    have haccepted : accepted (past ++
        [.commit source (.ok (some (storage.ledger staging.ledger).length))]) =
        accepted past ++ [((storage.ledger staging.ledger).length, source)] := accepted_append
    rw [hanswer]
    refine ⟨stages_commits h.stages hcommits, ?_, ?_, ?_, ?_⟩
    · rw [hledger, liveSlots_concat, h.slots, staged_concat_commit, List.map_append, Nat.zero_add]
      rfl
    · rw [hledger, haccepted, List.length_append, List.length_singleton]
      intro entry hm
      rcases List.mem_append.mp hm with hm | hm
      · exact Nat.lt_succ_of_lt (h.given entry hm)
      · cases List.mem_singleton.mp hm
        exact Nat.lt_succ_self _
    · rw [haccepted, List.map_append]
      refine List.nodup_append.mpr ⟨h.fresh, List.nodup_singleton _, ?_⟩
      intro ticket hm other ho
      obtain ⟨entry, hentry, rfl⟩ := List.mem_map.mp hm
      rw [List.mem_singleton.mp ho]
      exact Nat.ne_of_lt (h.given entry hentry)
    · rw [staged_concat_commit, hcommits.log.sources]
      intro entry hm
      rcases List.mem_append.mp hm with hm | hm
      · exact List.mem_append_left _ (h.logged entry hm)
      · cases List.mem_singleton.mp hm
        exact List.mem_append_right _ (List.mem_singleton_self _)
  · -- no ticket, and nothing else has changed
    refine keeps_spared h ?_ (fun _ _ => rfl) (spares_untouched h.stages hu)
    rcases hcommit : (staging.commitTracked source token watched storage).1 with
      cause | _ | ticket
    · rfl
    · rfl
    · exact absurd hcommit (hanswer ticket)

theorem keeps_release (h : staging.Keeps engine past storage) (ticket : Nat) :
    staging.Keeps engine (past ++ [.release ticket (staging.release ticket storage).1])
      (staging.release ticket storage).2 := by
  have hledger : (staging.release ticket storage).2.ledger staging.ledger =
      (storage.ledger staging.ledger).set ticket none := ledger_clear staging ticket storage
  have hstaged : staged (past ++ [.release ticket (staging.release ticket storage).1]) =
      (staged past).filter fun entry => entry.1 ≠ ticket := by
    rw [staged_concat_of_none rfl]
    refine List.filter_congr fun entry _ => ?_
    simp [StagingEvent.ends, eq_comm]
  refine ⟨stages_clear h.stages ticket, ?_, ?_, ?_, ?_⟩
  · rw [hledger, liveSlots_set, h.slots, hstaged, List.filter_map, Nat.zero_add]
    rfl
  · rw [hledger, List.length_set, accepted_concat_of_none rfl]
    exact h.given
  · rw [accepted_concat_of_none rfl]
    exact h.fresh
  · rw [hstaged]
    exact fun entry hm => h.logged entry (List.mem_filter.mp hm).1

/-- A staged source is removed by a rollback if and only if its identifier was gone through. -/
theorem mem_removed_iff {gone : List Ident} {source : Source}
    (hd : storage.Drops engine gone after) (hs : source ∈ (storage.stateOf engine).sources) :
    source.id ∈ storage.removed engine after ↔ source.id ∈ gone := by
  rw [Storage.removed, hd.sources, List.mem_filter, decide_eq_true_eq]
  constructor
  · rintro ⟨-, hnot⟩
    refine Classical.byContradiction fun hkept => hnot (List.mem_map_of_mem ?_)
    exact List.mem_filter.mpr ⟨hs, decide_eq_true hkept⟩
  · intro hgone
    refine ⟨List.mem_map_of_mem hs, fun hm => ?_⟩
    obtain ⟨other, hother, he⟩ := List.mem_map.mp hm
    exact of_decide_eq_true (List.mem_filter.mp hother).2 (he ▸ hgone)

theorem filter_notMem_map {α β : Type} [DecidableEq β] {f : α → β} {kept gone : List α}
    (h : ((kept ++ gone).map f).Nodup) :
    (kept ++ gone).filter (fun item => f item ∉ gone.map f) = kept := by
  rw [List.map_append, List.nodup_append] at h
  have hkept : kept.filter (fun item => f item ∉ gone.map f) = kept := by
    refine List.filter_eq_self.mpr fun item hm => decide_eq_true fun hg => ?_
    exact h.2.2 _ (List.mem_map_of_mem hm) _ hg rfl
  have hgone : gone.filter (fun item => f item ∉ gone.map f) = [] := by
    refine List.filter_eq_nil_iff.mpr fun item hm hnot => ?_
    exact of_decide_eq_true hnot (List.mem_map_of_mem hm)
  rw [List.filter_append, hkept, hgone, List.append_nil]

/-- Identifiers are distinct, so a rollback ends the tickets that it has gone through, and no other
ones. -/
theorem staged_rollback (h : staging.Keeps engine past storage) (hd : DistinctSources past)
    {kept gone : List (Nat × Source)} (hsplit : staged past = kept ++ gone)
    (hdrops : storage.Drops engine (gone.map fun entry => entry.2.id) after)
    (result : Except RepositoryError Nat) :
    staged (past ++ [.rollback (storage.removed engine after) result]) = kept ∧
      ∀ entry ∈ kept, entry.2 ∈ (after.stateOf engine).sources := by
  have hdistinct : ((kept ++ gone).map fun entry => entry.2.id).Nodup :=
    hsplit ▸ hd.sublist ((staged_sublist past).map _)
  have hkept := filter_notMem_map hdistinct
  constructor
  · rw [staged_concat_of_none rfl, ← hkept, ← hsplit]
    refine List.filter_congr fun entry hm => ?_
    simp only [StagingEvent.ends, mem_removed_iff hdrops (h.logged entry hm), decide_not]
  · intro entry hm
    rw [← hkept, List.mem_filter, ← hsplit] at hm
    rw [hdrops.sources]
    exact List.mem_filter.mpr ⟨h.logged entry hm.1, hm.2⟩

theorem keeps_rollback (h : staging.Keeps engine past storage) (hd : DistinctSources past)
    (token : Token) (patience : Option Nat) :
    staging.Keeps engine
      (past ++ [.rollback (storage.removed engine (staging.rollback token patience storage).2)
        (staging.rollback token patience storage).1])
      (staging.rollback token patience storage).2 := by
  obtain ⟨kept, gone, hsplit, hslots, hlength, hdrops, -⟩ :=
    drops_purgeAll _ h.stages rfl (Prod.eta (staging.rollback token patience storage)).symm
  generalize staging.rollback token patience storage = outcome at hslots hlength hdrops ⊢
  obtain ⟨result, after⟩ := outcome
  -- the slots that the rollback leaves are those of the first staged sources
  obtain ⟨kept, gone, hstaged, rfl, rfl⟩ := List.map_eq_append_iff.mp (h.slots.symm.trans hsplit)
  rw [List.map_map] at hdrops
  obtain ⟨hkept, hlogged⟩ := staged_rollback h hd hstaged hdrops result
  refine ⟨stages_of_eq h.stages hdrops.sessions hdrops.engines hdrops.ledgers, ?_, ?_, ?_, ?_⟩
  · rw [hslots, hkept]
  · rw [hlength, accepted_concat_of_none rfl]
    exact h.given
  · rw [accepted_concat_of_none rfl]
    exact h.fresh
  · rw [hkept]
    exact hlogged

end TicketLemmas

section

variable {staging : Staging} {engine : Nat} {start storage after : Storage}
  {past events : List StagingEvent} {event : StagingEvent}

theorem keeps_step (h : staging.Keeps engine past storage) (hd : DistinctSources past)
    (hs : staging.Step engine storage event after) :
    staging.Keeps engine (past ++ [event]) after := by
  cases hs with
  | tracked source token watched => exact keeps_commit h source token watched
  | plain source token => exact keeps_commit h source token .never
  | release ticket => exact keeps_release h ticket
  | rollback token patience => exact keeps_rollback h hd token patience
  | others hspares => exact keeps_spared h rfl (fun _ _ => rfl) hspares

theorem keeps_run (h : start.Stages staging engine) (hl : start.ledger staging.ledger = [])
    (hr : staging.Run engine start events storage) (hd : DistinctSources events) :
    staging.Keeps engine events storage := by
  induction hr with
  | refl =>
    refine ⟨h, ?_, ?_, List.nodup_nil, ?_⟩
    · rw [hl]
      rfl
    · intro entry hm
      cases hm
    · intro entry hm
      cases hm
  | step _ hs ih => exact keeps_step (ih hd.of_append) hd.of_append hs

/-- Every call of a history was made at some point of it. -/
theorem exists_step_of_run (hr : staging.Run engine start events storage) :
    ∀ {past later : List StagingEvent}, events = past ++ event :: later →
      ∃ before after, staging.Run engine start past before ∧
        staging.Step engine before event after := by
  induction hr with
  | refl =>
    intro past later he
    simp at he
  | @step earlier before after last hearlier hs ih =>
    intro past later he
    rcases List.eq_nil_or_concat' later with rfl | ⟨later, final, rfl⟩
    · obtain ⟨rfl, hlast⟩ := List.append_inj' he rfl
      cases hlast
      exact ⟨before, after, hearlier, hs⟩
    · rw [← List.cons_append, ← List.append_assoc] at he
      exact ih (List.append_inj_left' he rfl)

/-- The answer of a release is read off the ledger. -/
theorem answer_of_release {ticket : Nat} {answer : Option Ident}
    (hs : staging.Step engine storage event after) (he : event = .release ticket answer) :
    answer = staging.sourceOf ticket storage := by
  cases hs <;> cases he
  rfl

theorem sourceOf_eq_some_iff (h : staging.Keeps engine events storage) {ticket : Nat} {id : Ident} :
    staging.sourceOf ticket storage = some id ↔
      ∃ source, (ticket, source) ∈ staged events ∧ source.id = id := by
  rw [Staging.sourceOf, ← mem_liveSlots, h.slots, Nat.zero_add, List.mem_map]
  constructor
  · rintro ⟨⟨other, source⟩, hm, he⟩
    cases he
    exact ⟨source, hm, rfl⟩
  · rintro ⟨source, hm, rfl⟩
    exact ⟨(ticket, source), hm, rfl⟩

/-- If the release of a ticket was answered with a source, no later one is. -/
theorem release_answered_once (h : start.Stages staging engine)
    (hl : start.ledger staging.ledger = []) (hr : staging.Run engine start events storage)
    (hd : DistinctSources events) {later : List StagingEvent} {ticket : Nat} {id : Ident}
    {answer : Option Ident} (he : events = past ++ .release ticket (some id) :: later)
    (hm : .release ticket answer ∈ later) : answer = none := by
  obtain ⟨between, rest, rfl⟩ := List.append_of_mem hm
  have hagain : events = (past ++ .release ticket (some id) :: between) ++
      .release ticket answer :: rest := by
    rw [he]
    simp
  -- the ledger at the first release, and at the second one
  obtain ⟨first, _, hpast, hreleased⟩ := exists_step_of_run hr he
  obtain ⟨second, _, hbetween, hasked⟩ := exists_step_of_run hr hagain
  have hfirst : staging.Keeps engine past first := keeps_run h hl hpast (he ▸ hd).of_append
  have hsecond : staging.Keeps engine (past ++ .release ticket (some id) :: between) second :=
    keeps_run h hl hbetween (hagain ▸ hd).of_append
  obtain ⟨source, hlive, -⟩ :=
    (sourceOf_eq_some_iff hfirst).mp (answer_of_release hreleased rfl).symm
  refine Option.eq_none_iff_forall_ne_some.mpr fun other ho => ?_
  rw [answer_of_release hasked rfl] at ho
  obtain ⟨found, hfound, -⟩ := (sourceOf_eq_some_iff hsecond).mp ho
  exact not_mem_staged_of_released hsecond.fresh rfl hlive hfound

end

/-! ## 4. The result -/

/-- After any calls to a staging repository whose ledger was empty at first, whatever was accepted,
rejected or failed and whatever others did without purging, as long as accepted sources have
identifiers of their own:
* a commit that the store accepts, and no other one, gets a ticket, and no accepted commit had it
  before;
* a ticket leads to its source until a call ends it, and to nothing ever after;
* the release of a live ticket is answered with its source and that of any other number with
  nothing, so that no second release of a ticket is answered with a source;
* the tickets are those of the accepted commits that no call has ended, in commit order;
* their sources are in the log. -/
theorem ticket_ledger_law {staging : Staging} {engine : Nat} {start storage : Storage}
    {events : List StagingEvent} (h : start.Stages staging engine)
    (hl : start.ledger staging.ledger = []) (hr : staging.Run engine start events storage)
    (hd : DistinctSources events) :
    (∀ source token watched,
      ((∃ ticket, (staging.commitTracked source token watched storage).1 = .ok (some ticket)) ↔
        (staging.store.commit source token watched storage).1 = .ok true) ∧
      ∀ ticket, (staging.commitTracked source token watched storage).1 = .ok (some ticket) →
        ticket ∉ (accepted events).map Prod.fst) ∧
    (∀ past source ticket later, events = past ++ .commit source (.ok (some ticket)) :: later →
      staging.sourceOf ticket storage =
        if later.any (StagingEvent.ends ticket source.id) then none else some source.id) ∧
    (∀ ticket id, (staging.release ticket storage).1 = some id ↔
      ∃ source, (ticket, source) ∈ staged events ∧ source.id = id) ∧
    (∀ past ticket id later, events = past ++ .release ticket (some id) :: later →
      ∀ answer, .release ticket answer ∈ later → answer = none) ∧
    staging.tickets storage = (staged events).map Prod.fst ∧
    ∀ entry ∈ staged events, entry.2 ∈ (storage.stateOf engine).sources := by
  have hkeeps : staging.Keeps engine events storage := keeps_run h hl hr hd
  refine ⟨fun source token watched => ?_, ?_, fun ticket id => sourceOf_eq_some_iff hkeeps, ?_, ?_,
    hkeeps.logged⟩
  · rcases commitTracked_cases hkeeps.stages source token watched with
      ⟨hok, hanswer, -⟩ | ⟨hne, hanswer, -⟩
    · refine ⟨iff_of_true ⟨_, hanswer⟩ hok, fun ticket ht hm => ?_⟩
      rw [hanswer] at ht
      cases ht
      obtain ⟨entry, hentry, he⟩ := List.mem_map.mp hm
      exact Nat.ne_of_lt (hkeeps.given entry hentry) he
    · exact ⟨iff_of_false (fun ⟨ticket, ht⟩ => hanswer ticket ht) hne,
        fun ticket ht => absurd ht (hanswer ticket)⟩
  · intro past source ticket later he
    refine Option.ext fun id => ?_
    rw [sourceOf_eq_some_iff hkeeps]
    simp only [mem_staged_iff_of_fresh hkeeps.fresh he]
    cases later.any (StagingEvent.ends ticket source.id) <;> simp
  · intro past ticket id later he answer hm
    exact release_answered_once h hl hr hd he hm
  · rw [Staging.tickets, hkeeps.slots, List.map_map]
    rfl

/-- A staging layer over a session to a log with three sources. The second purge is going to
fail. -/
def exCounter : Storage :=
  ((exShelf.addScript ⟨[], [], [none, some (.backend "down")], [], []⟩).2.addLedger).2

/-- The second commit is rejected. The first ticket is released, and the rollback ends early, after
one purge. -/
def exCalls : List StagingEvent :=
  [.commit (exWrite 10 3 1) (.ok (some 0)), .commit (exWrite 11 3 1) (.ok none),
    .commit (exWrite 12 4 1) (.ok (some 1)), .commit (exWrite 13 5 1) (.ok (some 2)),
    .release 0 (some (.ofNat 10)), .rollback [.ofNat 13] (.error (.backend "down")),
    .commit (exWrite 14 6 1) (.ok (some 3)), .release 0 none]

theorem run_recorded {staging : Staging} {engine : Nat} {start storage after : Storage}
    {past events : List StagingEvent} {event : StagingEvent}
    (hr : staging.Run engine start past storage) (hs : staging.Step engine storage event after)
    (he : past ++ [event] = events) : staging.Run engine start events after :=
  he ▸ .step hr hs

/-- The tickets that are left are the one that the rollback did not come to and a new one. -/
theorem ticket_ledger_law_interrupted :
    let staging : Staging := ⟨0, .scripted 0 0⟩
    exCounter.Stages staging 0 ∧ exCounter.ledger 0 = [] ∧
    ∃ storage, staging.Run 0 exCounter exCalls storage ∧
      staging.tickets storage = [1, 3] ∧ staging.sourceOf 2 storage = none ∧
      exWrite 12 4 1 ∈ (storage.stateOf 0).sources := by
  intro staging
  have hstages : exCounter.Stages staging 0 := ⟨⟨_, rfl, rfl⟩, by decide, by decide⟩
  -- the answers are checked call by call
  have hfirst : staging.Run 0 exCounter (exCalls.take 1) _ :=
    run_recorded .refl (.tracked _ (exWrite 10 3 1) .never .never) (by decide +kernel)
  have hrejected : staging.Run 0 exCounter (exCalls.take 2) _ :=
    run_recorded hfirst (.tracked _ (exWrite 11 3 1) .never .never) (by decide +kernel)
  have hsecond : staging.Run 0 exCounter (exCalls.take 3) _ :=
    run_recorded hrejected (.tracked _ (exWrite 12 4 1) .never .never) (by decide +kernel)
  have hthird : staging.Run 0 exCounter (exCalls.take 4) _ :=
    run_recorded hsecond (.tracked _ (exWrite 13 5 1) .never .never) (by decide +kernel)
  have hreleased : staging.Run 0 exCounter (exCalls.take 5) _ :=
    run_recorded hthird (.release _ 0) (by decide +kernel)
  have hinterrupted : staging.Run 0 exCounter (exCalls.take 6) _ :=
    run_recorded hreleased (.rollback _ .never none) (by decide +kernel)
  have hfourth : staging.Run 0 exCounter (exCalls.take 7) _ :=
    run_recorded hinterrupted (.plain _ (exWrite 14 6 1) .never) (by decide +kernel)
  have hrun : staging.Run 0 exCounter exCalls _ :=
    run_recorded hfourth (.release _ 0) (by decide +kernel)
  obtain ⟨-, hsource, -, -, htickets, hlogged⟩ :=
    ticket_ledger_law hstages rfl hrun (by unfold DistinctSources; decide)
  have hlive : (1, exWrite 12 4 1) ∈ staged exCalls := by decide +kernel
  exact ⟨hstages, rfl, _, hrun, htickets, hsource (exCalls.take 3) (exWrite 13 5 1) 2 _ rfl,
    hlogged _ hlive⟩

end LeaseLog
