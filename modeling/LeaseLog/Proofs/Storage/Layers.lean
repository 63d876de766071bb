import LeaseLog.Proofs.Storage.Session

/-!
# Commits through layers

A commit runs through retries, scripted delays and failures, absorbed errors and a ledger before and
after it reaches a log, and its token may be cancelled at any moment. Still it writes its source
once and says so, or it writes nothing.

Every layer keeps this for a reason of its own. A session writes last. A failure that is retried has
written nothing. A layer that turns an error into a rejection never touches an acceptance, and a
ledger gets its ticket only behind an accepted commit.

Results:
1. `settles_commitSession`: a session writes the whole source, or nothing at all.
2. `settles_attempts`: attempts of which each one is all or nothing are all or nothing together.
3. `commit_all_or_nothing`: so is a commit through any layers.
-/

namespace LeaseLog

/-! ## Definitions -/

/-- The ledger of the staging layer, if there is one. -/
def Repository.ledger? : Repository → Option Nat
  | .bare _ => none
  | .logging inner => inner.ledger?
  | .retrying _ inner => inner.ledger?
  | .staging ledger _ => some ledger

/-- The engines with their logs, the sessions and the ledgers are as before. -/
structure Storage.Untouched (before after : Storage) : Prop where
  engines : after.engines = before.engines
  sessions : after.sessions = before.sessions
  ledgers : after.ledgers = before.ledgers

/-- A log has one more source at its end, and each of its messages was written to the state. -/
structure LogState.Gains (before : LogState) (source : Source) (after : LogState) : Prop where
  sources : after.sources = before.sources ++ [source]
  written : after =
    { source.messages.foldl (LogState.write source) before with sources := after.sources }

/-- The log of one engine gained a source, and a ledger, if one is kept, a ticket for it. Every
other log and ledger is as before. -/
structure Storage.Commits (before : Storage) (engine : Nat) (ledger? : Option Nat) (source : Source)
    (after : Storage) : Prop where
  log : (before.stateOf engine).Gains source (after.stateOf engine)
  others : ∀ other, other ≠ engine → after.stateOf other = before.stateOf other
  sessions : after.sessions = before.sessions
  count : after.ledgers.length = before.ledgers.length
  ticket : ∀ index, after.ledger index =
    if ledger? = some index then before.ledger index ++ [some source.id] else before.ledger index

/-- Either a commit is accepted and its source is written, or nothing changes. -/
def Storage.Settles (before : Storage) (engine : Nat) (ledger? : Option Nat) (source : Source)
    (outcome : Except RepositoryError Bool × Storage) : Prop :=
  (outcome.1 = .ok true ∧ before.Commits engine ledger? source outcome.2) ∨
    (outcome.1 ≠ .ok true ∧ before.Untouched outcome.2)

/-- A session is there, with its engine, and so is the ledger if one is kept. -/
structure Storage.Serves (storage : Storage) (index : Nat) (session : Session)
    (ledger? : Option Nat) : Prop where
  found : storage.sessions[index]? = some session
  engine : session.engine < storage.engines.length
  ledger : ∀ ledger, ledger? = some ledger → ledger < storage.ledgers.length

/-! ## 1. A session -/

namespace LayerLemmas

variable {storage middle after : Storage} {index engine : Nat} {session : Session}
  {ledger? : Option Nat} {source : Source} {token : Token}
  {outcome : Except RepositoryError Bool × Storage}

theorem Untouched.refl : storage.Untouched storage := ⟨rfl, rfl, rfl⟩

theorem stateOf_untouched (h : storage.Untouched after) (engine : Nat) :
    after.stateOf engine = storage.stateOf engine := by
  rw [Storage.stateOf, h.engines]
  rfl

theorem ledger_untouched (h : storage.Untouched after) (index : Nat) :
    after.ledger index = storage.ledger index := by
  rw [Storage.ledger, h.ledgers]
  rfl

theorem serves_untouched (hs : storage.Serves index session ledger?)
    (h : storage.Untouched after) : after.Serves index session ledger? :=
  ⟨h.sessions ▸ hs.found, h.engines ▸ hs.engine, h.ledgers ▸ hs.ledger⟩

/-- What happens to the clock or to a script before a commit goes unnoticed. -/
theorem settles_of_untouched (h : storage.Untouched middle)
    (ho : middle.Settles engine ledger? source outcome) :
    storage.Settles engine ledger? source outcome := by
  rcases ho with ⟨hok, hlog, hothers, hsessions, hcount, hticket⟩ | ⟨hne, he, hs, hl⟩
  · refine .inl ⟨hok, stateOf_untouched h engine ▸ hlog, fun other hne => ?_,
      hsessions.trans h.sessions, h.ledgers ▸ hcount, fun index => ?_⟩
    · rw [hothers other hne, stateOf_untouched h]
    · rw [hticket index, ledger_untouched h]
  · exact .inr ⟨hne, he.trans h.engines, hs.trans h.sessions, hl.trans h.ledgers⟩

theorem settles_refused {cause : RepositoryError} (h : storage.Untouched after) :
    storage.Settles engine ledger? source (.error cause, after) :=
  .inr ⟨fun he => (by cases he), h⟩

theorem setState_self : storage.Untouched (storage.setState engine (storage.stateOf engine)) := by
  refine ⟨?_, rfl, rfl⟩
  refine List.ext_getElem? fun other => ?_
  simp only [Storage.setState, List.getElem?_modify, Storage.stateOf]
  by_cases he : engine = other
  · subst he
    cases storage.engines[engine]? <;> simp
  · simp [he]

theorem stateOf_setState_of_ne {state : LogState} {other : Nat} (h : other ≠ engine) :
    (storage.setState engine state).stateOf other = storage.stateOf other := by
  simp only [Storage.stateOf, Storage.setState, List.getElem?_modify, if_neg (Ne.symm h)]
  cases storage.engines[other]? <;> rfl

theorem foldl_of_writeAll {invariants : List Invariant} {messages : List Message} :
    ∀ {state written : LogState},
      LogState.writeAll invariants source state messages = .ok written →
      written = messages.foldl (LogState.write source) state := by
  induction messages with
  | nil =>
    intro state written h
    cases h
    rfl
  | cons message messages ih =>
    intro state written h
    rw [LogState.writeAll] at h
    split at h
    · cases h
    · exact ih h

theorem gains_of_apply {state final : LogState} {invariants : List Invariant}
    (h : state.apply source invariants = .ok final) : state.Gains source final := by
  rw [apply_eq_writeAll] at h
  cases hw : LogState.writeAll invariants source state source.messages with
  | error violation => rw [hw] at h; cases h
  | ok written =>
    rw [hw] at h
    cases h
    exact ⟨rfl, by rw [foldl_of_writeAll hw]⟩

end LayerLemmas

open LayerLemmas

/-- A session writes the source to its own log or leaves everything as it is. Whether the token or
the log is noticed first does not matter. -/
theorem settles_commitSession {storage : Storage} {index : Nat} {session : Session}
    (hs : storage.sessions[index]? = some session)
    (he : session.engine < storage.engines.length) (source : Source) (token : Token) :
    storage.Settles session.engine none source (storage.commitSession index source token) := by
  unfold Storage.commitSession
  simp only [hs]
  split
  · exact settles_refused Untouched.refl
  · split
    · exact settles_refused ⟨rfl, rfl, rfl⟩
    · -- from here on the clock alone has moved
      have hclock : storage.Untouched storage.refresh.spend := ⟨rfl, rfl, rfl⟩
      refine settles_of_untouched hclock ?_
      show Storage.Settles _ _ _ _
        (.ok ((storage.stateOf session.engine).commit source).1,
          storage.refresh.spend.setState session.engine
            ((storage.stateOf session.engine).commit source).2)
      rw [LogState.commit]
      split
      · next final ha =>
        have hlog : (storage.refresh.spend.setState session.engine final).stateOf session.engine =
            final := SessionLemmas.stateOf_setState he
        refine .inl ⟨rfl, ?_, fun other hne => stateOf_setState_of_ne hne, rfl, rfl, fun _ => rfl⟩
        rw [hlog]
        exact gains_of_apply ha
      · refine .inr ⟨fun h => (by cases h), ?_⟩
        show storage.refresh.spend.Untouched (storage.refresh.spend.setState session.engine
          (storage.refresh.spend.stateOf session.engine))
        exact setState_self

/-! ## 2. Stores, ledgers and retries -/

namespace LayerLemmas

variable {storage : Storage} {index : Nat} {session : Session} {ledger? : Option Nat}
  {source : Source} {token watched : Token}

/-- A commit that a script holds up, or lets fail before it reaches the session. -/
theorem settles_delayed {failure : Option RepositoryError} {waited : Bool × Storage}
    (h : storage.Serves index session none) (hw : storage.Untouched waited.2) :
    storage.Settles session.engine none source
      (match waited.1 with
      | false => (.error .cancelled, waited.2)
      | true =>
        match failure with
        | some cause => (.error cause, waited.2)
        | none => waited.2.commitSession index source token) := by
  have hs := serves_untouched h hw
  split
  · exact settles_refused hw
  · split
    · exact settles_refused hw
    · exact settles_of_untouched hw (settles_commitSession hs.found hs.engine source token)

theorem settles_store {store : Store} (h : storage.Serves store.sessionIndex session none) :
    storage.Settles session.engine none source (store.commit source token watched storage) := by
  cases store with
  | plain index => exact settles_commitSession h.found h.engine source token
  | scripted script index =>
    simp only [Store.commit]
    split
    · exact settles_commitSession h.found h.engine source token
    · -- the script goes on, and time may pass, before anything else happens
      split
      · refine settles_of_untouched ?_ (settles_commitSession ?_ ?_ source token)
        · exact ⟨rfl, rfl, rfl⟩
        · exact h.found
        · exact h.engine
      · refine settles_delayed h ?_
        split <;> exact ⟨rfl, rfl, rfl⟩

theorem ledger_setLedger {ledger other : Nat} {slots : List (Option Ident)}
    (h : ledger < storage.ledgers.length) :
    (storage.setLedger ledger slots).ledger other =
      if ledger = other then slots else storage.ledger other := by
  simp only [Storage.ledger, Storage.setLedger, List.getElem?_set]
  by_cases he : ledger = other
  · subst he
    simp [h]
  · simp [he]

/-- A ticket is written behind a commit that no ledger has noticed yet. -/
theorem commits_ticketed {engine ledger : Nat} {after : Storage}
    (h : storage.Commits engine none source after) (hl : ledger < storage.ledgers.length) :
    storage.Commits engine (some ledger) source
      (after.setLedger ledger (after.ledger ledger ++ [some source.id])) := by
  have hafter : ledger < after.ledgers.length := h.count ▸ hl
  have hbefore : ∀ index, after.ledger index = storage.ledger index := h.ticket
  refine ⟨h.log, h.others, h.sessions, ?_, fun index => ?_⟩
  · show (after.ledgers.set ledger _).length = _
    rw [List.length_set, h.count]
  · rw [ledger_setLedger hafter, hbefore, hbefore]
    by_cases hi : ledger = index
    · rw [if_pos hi, if_pos (congrArg some hi), hi]
    · rw [if_neg hi, if_neg fun he => hi (Option.some.inj he)]

theorem settles_staging {ledger : Nat} {store : Store}
    (h : storage.Serves store.sessionIndex session (some ledger)) :
    storage.Settles session.engine (some ledger) source
      ((Repository.staging ledger store).commitUntil source token watched storage) := by
  have hstore : storage.Serves store.sessionIndex session none :=
    ⟨h.found, h.engine, fun other ho => by cases ho⟩
  have hsettles : storage.Settles session.engine none source
      (store.commit source token watched storage) := settles_store hstore
  unfold Repository.commitUntil Staging.commitTracked
  generalize store.commit source token watched storage = outcome at hsettles ⊢
  obtain ⟨verdict, after⟩ := outcome
  rcases hsettles with ⟨hok, hcommits⟩ | ⟨hne, hu⟩
  · cases hok
    exact .inl ⟨rfl, commits_ticketed hcommits (h.ledger ledger rfl)⟩
  · rcases verdict with cause | _ | _
    · exact settles_refused hu
    · exact .inr ⟨fun he => (by cases he), hu⟩
    · exact absurd rfl hne

end LayerLemmas

/-- Attempts that are all or nothing each are all or nothing together: an attempt is followed by
another one only if it failed, and then it has written nothing. -/
theorem settles_attempts {policy : RetryPolicy} {token : Token}
    {attempt : Storage → Except RepositoryError Bool × Storage} {index : Nat} {session : Session}
    {ledger? : Option Nat} {source : Source}
    (ha : ∀ storage : Storage, storage.Serves index session ledger? →
      storage.Settles session.engine ledger? source (attempt storage))
    {retries : Nat} : ∀ {wait : Nat} {storage : Storage}, storage.Serves index session ledger? →
      storage.Settles session.engine ledger? source
        (policy.attempts token attempt retries wait storage).2 := by
  induction retries with
  | zero =>
    intro wait storage h
    exact ha storage h
  | succ retries ih =>
    intro wait storage h
    have hfirst := ha storage h
    rw [RetryPolicy.attempts]
    split
    · next cause after hr =>
      rw [hr] at hfirst
      rcases hfirst with ⟨hok, -⟩ | ⟨-, hu⟩
      · cases hok
      have hwait : ∀ {finished later}, after.wait wait token = (finished, later) →
          storage.Untouched later := by
        intro finished later hw
        cases hw
        exact ⟨hu.engines, hu.sessions, hu.ledgers⟩
      split
      · split
        · next hw => exact settles_refused (hwait hw)
        · next hw => exact settles_of_untouched (hwait hw) (ih (serves_untouched h (hwait hw)))
      · exact settles_refused hu
    · exact hfirst

/-! ## 3. All layers -/

theorem absorb_eq_ok_true {result : Except RepositoryError Bool} :
    Repository.absorb result = .ok true ↔ result = .ok true := by
  cases result with
  | ok accepted => rfl
  | error cause =>
    rw [Repository.absorb]
    split <;> simp

theorem settles_commitUntil {repository : Repository} {session : Session} {source : Source}
    {token : Token} : ∀ {watched : Token} {storage : Storage},
      storage.Serves repository.base.sessionIndex session repository.ledger? →
      storage.Settles session.engine repository.ledger? source
        (repository.commitUntil source token watched storage) := by
  induction repository with
  | bare store =>
    intro watched storage h
    exact settles_store h
  | logging inner ih =>
    intro watched storage h
    have hinner : storage.Settles session.engine inner.ledger? source
        (inner.commitUntil source token watched storage) := ih h
    show storage.Settles _ _ source
      (Repository.absorb (inner.commitUntil source token watched storage).1,
        (inner.commitUntil source token watched storage).2)
    exact hinner.imp (fun ⟨hok, hc⟩ => ⟨absorb_eq_ok_true.mpr hok, hc⟩)
      (fun ⟨hne, hu⟩ => ⟨fun hok => hne (absorb_eq_ok_true.mp hok), hu⟩)
  | retrying policy inner ih =>
    intro watched storage h
    rw [Repository.commitUntil, RetryPolicy.run, RetryPolicy.trace]
    split
    · exact settles_refused Untouched.refl
    · simp only
      have hclock : storage.Untouched storage.refresh := ⟨rfl, rfl, rfl⟩
      split
      · exact settles_refused hclock
      · refine settles_of_untouched hclock ?_
        exact settles_attempts (fun _ hs => ih hs) (serves_untouched h hclock)
  | staging ledger store =>
    intro watched storage h
    exact settles_staging h

theorem Storage.Commits.not_untouched {before after : Storage} {engine : Nat}
    {ledger? : Option Nat} {source : Source} (h : before.Commits engine ledger? source after) :
    ¬ before.Untouched after := by
  intro hu
  have hs := h.log.sources
  rw [stateOf_untouched hu] at hs
  simp at hs

/-- A commit through any layers over a session says that it was accepted if and only if it wrote its
source: once, at the end of the log, with all its messages, and with one ticket if there is a
ledger. With any other answer the logs, the derived states and the ledgers are exactly as before. -/
theorem commit_all_or_nothing {repository : Repository} {storage : Storage} {session : Session}
    (h : storage.Serves repository.base.sessionIndex session repository.ledger?) (source : Source)
    (token : Token) :
    ((repository.commit source token storage).1 = .ok true ↔
      storage.Commits session.engine repository.ledger? source
        (repository.commit source token storage).2) ∧
    ((repository.commit source token storage).1 ≠ .ok true →
      storage.Untouched (repository.commit source token storage).2) := by
  have hsettles : storage.Settles session.engine repository.ledger? source
      (repository.commit source token storage) := settles_commitUntil h
  rcases hsettles with ⟨hok, hc⟩ | ⟨hne, hu⟩
  · exact ⟨⟨fun _ => hc, fun _ => hok⟩, fun hne => absurd hok hne⟩
  · exact ⟨⟨fun hok => absurd hok hne, fun hc => absurd hu hc.not_untouched⟩, fun _ => hu⟩

/-- Retries around a ledger, and around both a layer that absorbs errors. -/
def exLayers : Repository := .logging (.retrying .standard (.staging 0 (.scripted 0 0)))

/-- A session on an empty log, with a ledger. The first commit is held up and fails, and so does the
second one. -/
def exFaults : Storage :=
  let faults : FaultScript :=
    ⟨[⟨some 10000000, some (.timeout 10)⟩, ⟨none, some (.backend "down")⟩], [], [], [], []⟩
  let (_, storage) := Storage.empty.addEngine .empty
  let (_, storage) := storage.addSession 0 .writer
  let (_, storage) := storage.addScript faults
  storage.addLedger.2

/-- A source that writes one entity. -/
def exSource : Source :=
  ⟨.ofNat 7, default, default, [.plain ⟨.ofNat 1, (Version.ofNat? 1).getD .zero⟩ default]⟩

/-- The third attempt is accepted, well before the token is cancelled: the log has the source once,
and the ledger a ticket for it. -/
theorem commit_all_or_nothing_retried :
    exFaults.Serves exLayers.base.sessionIndex ⟨0, .writer, false⟩ exLayers.ledger? ∧
    exFaults.Commits 0 (some 0) exSource
      (exLayers.commit exSource (Token.never.cancelAfter exFaults.now 1000000000) exFaults).2 := by
  have h : exFaults.Serves exLayers.base.sessionIndex ⟨0, .writer, false⟩ exLayers.ledger? := by
    refine ⟨rfl, by decide, fun ledger hl => ?_⟩
    cases hl
    decide
  refine ⟨h, (commit_all_or_nothing h _ _).1.mp ?_⟩
  rfl

end LeaseLog
