import LeaseLog.Proofs.State.Rebuilt
import LeaseLog.Proofs.Storage.Layers

/-!
# Purging a source

A session takes a source out of the log by replaying all other ones. Later sources may depend on the
one that goes, through a version or a lease, so a purge may be impossible; the newest source can
always go.

Results:
1. `purgeSession_eq`: what a purge through a writable session does, read off the log of its engine.
2. `purge_as_never_committed`: a purge leaves the log and the state as if the source had never been
   committed, or does nothing.
-/

namespace LeaseLog

/-! ## Definitions -/

/-- The log of one engine lost the sources of an identifier, and its state is the one of a new
engine to which the other sources were committed. Everything else is as before. -/
structure Storage.Purges (before : Storage) (engine : Nat) (id : Ident) (after : Storage) :
    Prop where
  sources : (after.stateOf engine).sources = (before.stateOf engine).without id
  rebuilt : after.stateOf engine = LogState.empty.commitAll ((before.stateOf engine).without id)
  others : ∀ other, other ≠ engine → after.stateOf other = before.stateOf other
  count : after.engines.length = before.engines.length
  sessions : after.sessions = before.sessions
  ledgers : after.ledgers = before.ledgers

/-- A session is there and may write, and the log of its engine is a reachable state. -/
structure Storage.Writes (storage : Storage) (index engine : Nat) : Prop where
  session : ∃ session, storage.sessions[index]? = some session ∧ session.engine = engine ∧
    session.ensureWritable = .ok ()
  bound : engine < storage.engines.length
  log : (storage.stateOf engine).Reachable

/-! ## 1. A purge through a session -/

open SessionLemmas LayerLemmas

section

variable {storage after : Storage} {index engine : Nat} {id : Ident}
  {result : Except RepositoryError Unit}

theorem purgeSession_eq (h : storage.Writes index engine) (id : Ident) :
    storage.purgeSession index id =
      match (storage.stateOf engine).purge id with
      | .error cause => (.error (.backend cause.message), storage.spend)
      | .ok state => (.ok (), storage.spend.setState engine state) := by
  obtain ⟨session, hs, rfl, hw⟩ := h.session
  unfold Storage.purgeSession
  rw [hs]
  simp only
  rw [hw]
  rfl

theorem writes_untouched (h : storage.Writes index engine) (hu : storage.Untouched after) :
    after.Writes index engine := by
  refine ⟨?_, hu.engines ▸ h.bound, stateOf_untouched hu engine ▸ h.log⟩
  rw [hu.sessions]
  exact h.session

/-- A purge has one of two outcomes, and the replay of the other sources decides which. -/
theorem purgeSession_cases (h : storage.Writes index engine)
    (hp : storage.purgeSession index id = (result, after)) :
    (∃ cause, LogState.replay ((storage.stateOf engine).without id) Invariant.standard =
        .error cause ∧
      result = .error (.backend cause.message) ∧ storage.Untouched after) ∨
    (LogState.replay ((storage.stateOf engine).without id) Invariant.standard =
        .ok (after.stateOf engine) ∧
      (storage.stateOf engine).purge id = .ok (after.stateOf engine) ∧
      result = .ok () ∧ storage.Purges engine id after) := by
  rw [purgeSession_eq h, purge_eq_replay h.log] at hp
  rw [purge_eq_replay h.log]
  cases hr : LogState.replay ((storage.stateOf engine).without id) Invariant.standard with
  | error cause =>
    rw [hr] at hp
    cases hp
    exact .inl ⟨cause, rfl, rfl, rfl, rfl, rfl⟩
  | ok state =>
    rw [hr] at hp
    cases hp
    have hstate : (storage.spend.setState engine state).stateOf engine = state :=
      stateOf_setState h.bound
    rw [hstate]
    refine .inr ⟨rfl, rfl, rfl, ?_, ?_, ?_, ?_, rfl, rfl⟩
    · rw [hstate]
      exact ReplayLemmas.sources_of_replay hr
    · rw [hstate]
      exact (commitAll_of_applyAll hr).symm
    · intro other hne
      exact stateOf_setState_of_ne hne
    · rw [length_engines_setState]
      rfl

/-- The newest source can always go, and that takes its commit back. -/
theorem purgeSession_newest (h : storage.Writes index engine) {earlier : List Source}
    {newest : Source} (hs : (storage.stateOf engine).sources = earlier ++ [newest])
    (hfresh : ∀ source ∈ earlier, source.id ≠ newest.id)
    (hp : storage.purgeSession index newest.id = (result, after)) :
    result = .ok () ∧ storage.Purges engine newest.id after ∧
      (after.stateOf engine).sources = earlier ∧
      (after.stateOf engine).commit newest = (true, storage.stateOf engine) := by
  obtain ⟨before, hb, hbefore, hc⟩ := exists_before_newest h.log hs
  have hnewest : (storage.stateOf engine).purge newest.id = .ok before :=
    purge_newest hb hc (hbefore ▸ hfresh)
  rcases purgeSession_cases h hp with ⟨cause, he, _, _⟩ | ⟨_, hlog, hok, hpurges⟩
  · rw [← purge_eq_replay h.log, hnewest] at he
    cases he
  · rw [hnewest] at hlog
    cases hlog
    exact ⟨hok, hpurges, hbefore, hc⟩

/-- A purge keeps what the next one needs. -/
theorem writes_purges (h : storage.Writes index engine)
    (hp : storage.purgeSession index id = (.ok (), after)) : after.Writes index engine := by
  rcases purgeSession_cases h hp with ⟨_, _, he, _⟩ | ⟨_, hlog, _, hpurges⟩
  · cases he
  · refine ⟨?_, hpurges.count.symm ▸ h.bound, h.log.purge hlog⟩
    rw [hpurges.sessions]
    exact h.session

end

/-! ## 2. The result -/

/-- A purge through a writable session is accepted if and only if the other sources of the log are
valid on their own. Then the log is those sources, in their order, and the state is what committing
them to a new engine gives. Otherwise the purge fails, and everything is as before.

The newest source can always go, if no other one has its identifier: that takes its commit back. A
second purge changes nothing. -/
theorem purge_as_never_committed {storage after : Storage} {index engine : Nat} {id : Ident}
    {result : Except RepositoryError Unit} (h : storage.Writes index engine)
    (hp : storage.purgeSession index id = (result, after)) :
    (result = .ok () → storage.Purges engine id after) ∧
    ((∃ detail, result = .error (.backend detail)) ↔
      ¬ ∃ state, LogState.replay ((storage.stateOf engine).without id) Invariant.standard =
        .ok state) ∧
    (∀ cause, result = .error cause →
      (∃ detail, cause = .backend detail) ∧ storage.Untouched after) ∧
    (∀ earlier newest, (storage.stateOf engine).sources = earlier ++ [newest] →
      (∀ source ∈ earlier, source.id ≠ newest.id) → id = newest.id →
      result = .ok () ∧ (after.stateOf engine).sources = earlier ∧
        (after.stateOf engine).commit newest = (true, storage.stateOf engine) ∧
        ∀ before : LogState, before.Reachable →
          before.commit newest = (true, storage.stateOf engine) → after.stateOf engine = before) ∧
    (result = .ok () → (after.purgeSession index id).1 = .ok () ∧
      after.Untouched (after.purgeSession index id).2) := by
  have hcases := purgeSession_cases h hp
  refine ⟨?_, ⟨?_, ?_⟩, ?_, ?_, ?_⟩
  · rintro rfl
    rcases hcases with ⟨_, _, he, _⟩ | ⟨_, _, _, hpurges⟩
    · cases he
    · exact hpurges
  · rintro ⟨detail, rfl⟩ ⟨state, hr⟩
    rcases hcases with ⟨cause, he, _, _⟩ | ⟨_, _, he, _⟩
    · rw [hr] at he
      cases he
    · cases he
  · intro hn
    rcases hcases with ⟨cause, _, he, _⟩ | ⟨hr, _, _, _⟩
    · exact ⟨_, he⟩
    · exact absurd ⟨_, hr⟩ hn
  · rintro cause rfl
    rcases hcases with ⟨_, _, he, hu⟩ | ⟨_, _, he, _⟩
    · cases he
      exact ⟨⟨_, rfl⟩, hu⟩
    · cases he
  · rintro earlier newest hs hfresh rfl
    obtain ⟨hok, -, hbefore, hc⟩ := purgeSession_newest h hs hfresh hp
    refine ⟨hok, hbefore, hc, fun other ho hother => ?_⟩
    -- the log of the other state is this one without its newest source too
    have hsame : earlier ++ [newest] = other.sources ++ [newest] := by
      rw [← hs]
      exact sources_of_commit hother
    have hw : after.Writes index engine := writes_purges h (hok ▸ hp)
    refine eq_of_sources hw.log ho ?_
    rw [hbefore]
    exact List.append_cancel_right hsame
  · rintro rfl
    have hw := writes_purges h hp
    rcases hcases with ⟨_, _, he, _⟩ | ⟨_, hlog, _, _⟩
    · cases he
    · have hagain : (after.stateOf engine).purge id = .ok (after.stateOf engine) :=
        purge_again h.log hlog
      have hset :
          after.spend.Untouched (after.spend.setState engine (after.spend.stateOf engine)) :=
        setState_self
      rw [purgeSession_eq hw, hagain]
      exact ⟨rfl, hset.engines, hset.sessions, hset.ledgers⟩

/-- A source that writes one entity once. -/
def exWrite (id entity version : Nat) : Source :=
  ⟨.ofNat id, default, default,
    [.plain ⟨.ofNat entity, (Version.ofNat? version).getD .zero⟩ default]⟩

/-- Three sources. The third one goes on where the first one ended, and nothing depends on the
second one. -/
def exChained : LogState :=
  LogState.empty.commitAll [exWrite 7 1 1, exWrite 8 2 1, exWrite 9 1 2]

/-- A session that may write to that log. -/
def exShelf : Storage := ((Storage.empty.addEngine ⟨exChained, 0⟩).2.addSession 0 .writer).2

/-- The first source has to stay, the second one can go, and when the third one goes the log is what
it was before. -/
theorem purge_as_never_committed_chained :
    exShelf.Writes 0 0 ∧
    (∃ detail, (exShelf.purgeSession 0 (.ofNat 7)).1 = .error (.backend detail)) ∧
    exShelf.Untouched (exShelf.purgeSession 0 (.ofNat 7)).2 ∧
    exShelf.Purges 0 (.ofNat 8) (exShelf.purgeSession 0 (.ofNat 8)).2 ∧
    ((exShelf.purgeSession 0 (.ofNat 9)).2.stateOf 0).sources.map Source.id =
      [.ofNat 7, .ofNat 8] := by
  have hw : exShelf.Writes 0 0 :=
    ⟨⟨_, rfl, rfl, rfl⟩, by decide, .commit _ (.commit _ (.commit _ .empty))⟩
  obtain ⟨cause, hrefused⟩ : ∃ cause,
      LogState.replay ((exShelf.stateOf 0).without (.ofNat 7)) Invariant.standard =
        .error cause := ⟨_, rfl⟩
  obtain ⟨-, hfirst, huntouched, -⟩ := purge_as_never_committed hw
    (Prod.eta (exShelf.purgeSession 0 (.ofNat 7))).symm
  obtain ⟨detail, hdetail⟩ : ∃ detail,
      (exShelf.purgeSession 0 (.ofNat 7)).1 = .error (.backend detail) := by
    refine hfirst.mpr ?_
    rintro ⟨state, hr⟩
    rw [hrefused] at hr
    cases hr
  obtain ⟨hsecond, -⟩ := purge_as_never_committed hw
    (Prod.eta (exShelf.purgeSession 0 (.ofNat 8))).symm
  obtain ⟨-, -, -, hthird, -⟩ := purge_as_never_committed hw
    (Prod.eta (exShelf.purgeSession 0 (.ofNat 9))).symm
  refine ⟨hw, ⟨detail, hdetail⟩, (huntouched _ hdetail).2, hsecond rfl, ?_⟩
  rw [(hthird ((exShelf.stateOf 0).sources.take 2) _ rfl (by decide) rfl).2.1]
  rfl

end LeaseLog
