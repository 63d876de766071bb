import LeaseLog.Proofs.Storage.Scripts
import LeaseLog.Proofs.Stream.World

/-!
# A unit of work behind an absorbing layer

A unit of work reads and writes through a layer that absorbs failures of the infrastructure. A read
that fails before its first item looks like one that finds nothing; a commit that fails looks like
one that was rejected.

Results:
1. `find_absorbed`: what a look through the layer finds.
2. `prepare_absorbed`, `commit_cases`: what a unit makes of a look for a message key, and of a
   commit; `act_cases`: what any step of a unit can do.
3. `step_cases`: what can happen to a unit, and to the log that it shares with others.
-/

namespace LeaseLog

/-! ## Definitions -/

/-- The next read of a store fails before its first item, with a failure of the infrastructure. -/
def Store.Blinks (storage : Storage) (store : Store) : Prop :=
  ∃ fault later cause, store.readFaults storage = fault :: later ∧ fault.before = 0 ∧
    fault.failure = some cause ∧ cause.isInfrastructure = true

/-- A unit of work uses an engine through a session whose reads may fail as a script says, behind a
layer that absorbs such failures. -/
structure UnitOfWork.Absorbs (unit : UnitOfWork) (store : Store) (engine : Nat)
    (storage : Storage) : Prop where
  repository : unit.repository = .logging (.bare store)
  session : ∃ session, storage.sessions[store.sessionIndex]? = some session ∧
    session.engine = engine
  bound : engine < storage.engines.length
  log : (storage.stateOf engine).Reachable
  faults : ∀ fault ∈ store.readFaults storage, fault.inserted .pointers = []

/-- The logs are as before, and the script of a store says nothing new about reads. -/
structure Storage.Looked (before : Storage) (store : Store) (after : Storage) : Prop where
  untouched : before.Untouched after
  faults : ∀ fault ∈ store.readFaults after, fault ∈ store.readFaults before

/-- A unit of work, and the storage that it shares with others. -/
structure Desk where
  writer : Writer
  storage : Storage

/-- What happens around a unit of work: it does a step, somebody else commits a source, or time
passes. -/
inductive Occasion
  | act (action : Action)
  | others (source : Source)
  | pass (clock : Clock) (logFirst : Bool)

namespace Desk

/-- What an occasion makes of a desk; others commit to the given engine. -/
def step (engine : Nat) (desk : Desk) : Occasion → Desk
  | .act action =>
    let (writer, storage) := desk.writer.act action desk.storage
    ⟨writer, storage⟩
  | .others source =>
    let (_, state) := (desk.storage.stateOf engine).commit source
    ⟨desk.writer, desk.storage.setState engine state⟩
  | .pass clock logFirst => ⟨desk.writer, { desk.storage with clock, logFirst }⟩

/-- Occasions of a sort lead from one desk to another one. -/
inductive Leads (engine : Nat) (sort : Desk → Occasion → Prop) (first : Desk) : Desk → Prop
  | refl : Leads engine sort first first
  | step {last : Desk} (occasion : Occasion) : Leads engine sort first last → sort last occasion →
      Leads engine sort first (last.step engine occasion)

/-- The unit has nothing to do with it. -/
def Foreign (_ : Desk) : Occasion → Prop
  | .act _ => False
  | .others _ | .pass _ _ => True

/-- The occasion is no commit by which staged messages get into the log. -/
def Keeps (desk : Desk) : Occasion → Prop
  | .act (.commit stamp token) => desk.writer.claim = none → desk.writer.unit.staged ≠ [] →
      (desk.writer.unit.commit stamp token desk.storage).1 ≠ .ok true
  | .act _ | .others _ | .pass _ _ => True

end Desk

/-- What a step of a unit makes of it, as long as the log stays as it is. Nothing is said about its
extras, or about what it overlooked. -/
inductive Effect (log : LogState) : Writer → Writer → Prop
  | rest {writer : Writer} : Effect log writer writer
  | track {unit : UnitOfWork} {stream : Stream} :
      stream.version.toNat ≤ (log.versionOf stream.id).toNat →
      Effect log ⟨unit, none⟩ ⟨(unit.track stream).2, none⟩
  | claim {unit : UnitOfWork} {claim : Claim} : claim.stream ∈ unit.streams →
      Effect log ⟨unit, none⟩ ⟨unit, some claim⟩
  | stage {unit : UnitOfWork} {claim : Claim} :
      Effect log ⟨unit, some claim⟩ ⟨(unit.stageClaim claim).2, none⟩
  | append {unit : UnitOfWork} {claim : Claim} : claim.stream ∈ unit.streams →
      Effect log ⟨unit, none⟩ ⟨(unit.stageClaim claim).2, none⟩

/-- What the first entry of a look says about the state that is looked for. An entry that an
absorbing layer takes for the end says that there is none, unless the look is blind. -/
def Tells (pointer? : Option Pointer) (blind : Prop) : Option (Entry .pointers) → Prop
  | none => pointer? = none
  | some (.ok pointer) => pointer? = some pointer
  | some (.error cause) => cause.isInfrastructure = true → pointer? = none ∨ blind

/-! ## 1. A look through an absorbing layer -/

open SessionLemmas LayerLemmas ScriptLemmas

namespace DeskLemmas

variable {storage after : Storage} {store : Store} {index : Nat} {session : Session} {lease : Lease}
  {token : Token}

theorem closed_of_ensureOpen {cause : RepositoryError} (h : session.ensureOpen = .error cause) :
    cause = .closed := by
  unfold Session.ensureOpen at h
  split at h
  · cases h
    rfl
  · cases h

/-- A failure that is none of the infrastructure says nothing, since no layer absorbs it. -/
theorem tells_own {pointer? : Option Pointer} {blind : Prop} {cause : RepositoryError}
    (h : cause.isInfrastructure = false) : Tells pointer? blind (some (.error cause)) :=
  fun hinfra => absurd (h.symm.trans hinfra) Bool.false_ne_true

/-- A session's own failures are none of the infrastructure. -/
theorem tells_scan (hs : storage.sessions[index]? = some session)
    (hc : (storage.stateOf session.engine).Coherent) {entry : Option (Entry .pointers)}
    {rest : Scan .pointers}
    (hp : (Store.scan storage index .pointers (.ofLease lease)).poll token storage =
      (entry, rest, after)) :
    (after = storage ∨ after = storage.spend) ∧
      Tells ((storage.stateOf session.engine).pointerOf? lease) False entry := by
  simp only [Store.scan, hs, Scan.poll, Scan.entries] at hp
  cases ho : session.ensureOpen with
  | error cause =>
    cases closed_of_ensureOpen ho
    simp only [ho, Scan.touch, Scan.next] at hp
    split at hp <;> cases hp <;> exact ⟨.inl rfl, tells_own rfl⟩
  | ok _ =>
    simp only [ho, Scan.touch, snapshot_ofLease hc] at hp
    cases hl : (storage.stateOf session.engine).pointerOf? lease with
    | none =>
      rw [hl] at hp
      cases hp
      exact ⟨.inr rfl, rfl⟩
    | some pointer =>
      simp only [hl, Option.toList_some, List.map_cons, List.map_nil, Scan.next] at hp
      split at hp
      · cases hp
        exact ⟨.inr rfl, tells_own rfl⟩
      · cases hp
        exact ⟨.inr rfl, rfl⟩

theorem tells_blind {pointer? : Option Pointer} {blind : Prop} {entry : Option (Entry .pointers)}
    (h : Tells pointer? False entry) : Tells pointer? blind entry := by
  rcases entry with _ | cause | pointer
  · exact h
  · exact fun hinfra => (h hinfra).imp_right False.elim
  · exact h

/-- A look at a store whose script adds nothing to its listings. -/
theorem tells_list (hs : storage.sessions[store.sessionIndex]? = some session)
    (hc : (storage.stateOf session.engine).Coherent)
    (hf : ∀ fault ∈ store.readFaults storage, fault.inserted .pointers = [])
    {cursor rest : Cursor .pointers} {reached : Storage} {entry : Option (Entry .pointers)}
    (hl : store.list .pointers (.ofLease lease) storage = (cursor, reached))
    (hp : cursor.poll token reached = (entry, rest, after)) :
    storage.Untouched after ∧ store.readFaults after = (store.readFaults storage).tail ∧
      Tells ((storage.stateOf session.engine).pointerOf? lease) (store.Blinks storage) entry := by
  obtain ⟨later, hu, hreads, he⟩ := list_eq store storage .pointers (.ofLease lease)
  rw [hl] at he
  obtain ⟨rfl, rfl⟩ := Prod.mk.inj he
  have hs' : reached.sessions[store.sessionIndex]? = some session := hu.sessions ▸ hs
  have hlog := stateOf_untouched hu session.engine
  rcases hq : (Store.scan reached store.sessionIndex .pointers (.ofLease lease)).poll token reached
    with ⟨seen, left, last⟩
  -- whatever the script says, a poll that comes to the session tells what the session knows
  have hpolled : storage.Untouched last ∧ store.readFaults last = (store.readFaults storage).tail ∧
      Tells ((storage.stateOf session.engine).pointerOf? lease) (store.Blinks storage) seen := by
    obtain ⟨ha, ht⟩ := tells_scan hs' (hlog ▸ hc) hq
    rw [hlog] at ht
    rcases ha with rfl | rfl
    · exact ⟨hu, hreads, tells_blind ht⟩
    · exact ⟨⟨hu.engines, hu.sessions, hu.ledgers⟩, hreads, tells_blind ht⟩
  obtain ⟨huntouched, htail, htells⟩ := hpolled
  cases hr : store.readFaults storage with
  | nil =>
    simp only [hr, List.getElem?_nil, Cursor.poll, hq] at hp
    cases hp
    exact ⟨huntouched, hr ▸ htail, htells⟩
  | cons fault faults =>
    have hinserted : fault.inserted .pointers = [] := hf fault (hr ▸ List.mem_cons_self)
    simp only [hr, List.getElem?_cons_zero, hinserted] at hp
    cases hfail : fault.failure with
    | none =>
      simp only [hfail, Cursor.poll, hq] at hp
      cases hp
      exact ⟨huntouched, hr ▸ htail, htells⟩
    | some cause =>
      cases hb : fault.before with
      | zero =>
        simp only [hfail, hb, Cursor.poll] at hp
        cases hp
        exact ⟨hu, hr ▸ hreads, fun hinfra => .inr ⟨fault, faults, cause, hr, hb, hfail, hinfra⟩⟩
      | succ before =>
        rcases seen with _ | entry
        · simp only [hfail, hb, Cursor.poll, hq] at hp
          cases hp
          exact ⟨huntouched, hr ▸ htail, fun _ => .inl htells⟩
        · simp only [hfail, hb, Cursor.poll, hq] at hp
          cases hp
          exact ⟨huntouched, hr ▸ htail, htells⟩

end DeskLemmas

open DeskLemmas

/-- A look through a layer that absorbs failures answers with the state of the holder, or finds
nothing. Then nobody holds the lease, or the read failed and the layer took that for an end. -/
theorem find_absorbed {unit : UnitOfWork} {store : Store} {engine : Nat} {storage after : Storage}
    {lease : Lease} {token : Token} {result : Except RepositoryError (Option Pointer)}
    (hu : unit.Absorbs store engine storage)
    (h : unit.repository.backend.find lease token storage = (result, after)) :
    storage.Looked store after ∧
      ∀ found, result = .ok found → found = (storage.stateOf engine).pointerOf? lease ∨
        (found = none ∧ store.Blinks storage) := by
  obtain ⟨session, hs, rfl⟩ := hu.session
  rw [hu.repository] at h
  rcases hl : store.list .pointers (.ofLease lease) storage with ⟨cursor, reached⟩
  rcases hp : cursor.poll token reached with ⟨entry, rest, last⟩
  obtain ⟨huntouched, htail, htells⟩ :=
    tells_list hs (coherent_of_reachable hu.log) hu.faults hl hp
  have hlooked : storage.Looked store last :=
    ⟨huntouched, fun fault hm => List.mem_of_mem_tail (htail ▸ hm)⟩
  simp only [Repository.backend, Repository.firstPointer, Repository.list, hl, Cursor.poll, hp] at h
  rcases entry with _ | cause | pointer
  · cases h
    exact ⟨hlooked, fun found hf => by cases hf; exact .inl htells.symm⟩
  · cases hinfra : cause.isInfrastructure with
    | true =>
      simp only [hinfra, if_true] at h
      cases h
      refine ⟨hlooked, fun found hf => ?_⟩
      cases hf
      exact (htells hinfra).imp Eq.symm (⟨rfl, ·⟩)
    | false =>
      simp only [hinfra] at h
      cases h
      exact ⟨hlooked, fun found hf => by cases hf⟩
  · cases h
    exact ⟨hlooked, fun found hf => by cases hf; exact .inl htells.symm⟩

/-! ## 2. What a step can do -/

open AcceptedLemmas WorldLemmas

namespace DeskLemmas

variable {storage after : Storage} {store : Store} {engine : Nat} {unit unit' : UnitOfWork}
  {key : String} {token : Token}

theorem Looked.refl : storage.Looked store storage := ⟨Untouched.refl, fun _ h => h⟩

/-- A unit stays where it is as long as its session and the script do. -/
theorem absorbs_carried (hu : unit.Absorbs store engine storage)
    (hr : unit'.repository = unit.repository) (hc : storage.Carries after)
    (hl : (after.stateOf engine).Reachable)
    (hf : ∀ fault ∈ store.readFaults after, fault ∈ store.readFaults storage) :
    unit'.Absorbs store engine after := by
  obtain ⟨session, hs, he⟩ := hu.session
  obtain ⟨session', hs', he'⟩ := hc.sessions _ session hs
  exact ⟨hr.trans hu.repository, ⟨session', hs', he'.trans he⟩, hc.engines.symm ▸ hu.bound, hl,
    fun fault hm => hu.faults fault (hf fault hm)⟩

theorem absorbs_looked (hu : unit.Absorbs store engine storage)
    (hr : unit'.repository = unit.repository) (h : storage.Looked store after) :
    unit'.Absorbs store engine after :=
  absorbs_carried hu hr (carries_of_sessions (congrArg List.length h.untouched.engines)
    h.untouched.sessions) (stateOf_untouched h.untouched engine ▸ hu.log) h.faults

theorem effect_create {log : LogState} {fresh : Ident} :
    Effect log ⟨unit, none⟩ ⟨(unit.create key fresh).2, none⟩ := by
  rcases unit.create_cases key fresh with ⟨cause, h⟩ | ⟨-, h⟩
  · rw [h]
    exact .rest
  · rw [h]
    exact .track (Nat.zero_le _)

theorem effect_found {log : LogState} {lease : Lease} {pointer : Pointer}
    (h : log.pointerOf? lease = some pointer) :
    Effect log ⟨unit, none⟩ ⟨(unit.track (.found key pointer)).2, none⟩ := by
  obtain ⟨id, -, rfl⟩ := Option.map_eq_some_iff.mp h
  exact .track (Nat.le_refl _)

theorem effect_resolveOn (hu : unit.Absorbs store engine storage)
    {absent : Except StreamError Stream}
    (ha : ∀ stream, absent = .ok stream → ∃ fresh, stream = .unwritten key fresh)
    {result : Except StreamError Nat}
    (h : unit.resolveOn unit.repository.backend key absent token storage = (result, unit', after)) :
    storage.Looked store after ∧ Effect (storage.stateOf engine) ⟨unit, none⟩ ⟨unit', none⟩ := by
  rcases UnitOfWork.resolveOn_cases h with ⟨-, rfl, rfl | ⟨answer, hl⟩⟩ |
    ⟨pointer?, stream, -, hl, hstream, -, rfl⟩
  · exact ⟨Looked.refl, .rest⟩
  · exact ⟨(find_absorbed hu hl).1, .rest⟩
  · obtain ⟨hlooked, hfound⟩ := find_absorbed hu hl
    refine ⟨hlooked, ?_⟩
    rcases hstream with ⟨rfl, hs⟩ | ⟨pointer, rfl, rfl⟩
    · obtain ⟨fresh, rfl⟩ := ha stream hs
      exact .track (Nat.zero_le _)
    · rcases hfound _ rfl with hp | ⟨hn, -⟩
      · exact effect_found hp.symm
      · cases hn

/-- A claim is for a stream that the unit knows. If it is for a message key, nobody holds the lease,
or the look was blind. -/
theorem prepare_absorbed (hu : unit.Absorbs store engine storage) {delta : Delta} {extras : Extras}
    {result : Except StreamError (Option Claim)}
    (h : unit.prepare key delta extras token storage = (result, after)) :
    storage.Looked store after ∧ ∀ claim, result = .ok (some claim) →
      unit.known key = .ok (claim.handle, claim.stream) ∧
      claim.keyLease = delta.messageKey.map (messageLease key) ∧
      ∀ lease, claim.keyLease = some lease →
        (storage.stateOf engine).leaseHolder lease = none ∨ store.Blinks storage := by
  obtain ⟨hasked, hclaim⟩ := prepare_spec h
  refine ⟨?_, fun claim hr => ?_⟩
  · rcases hasked with rfl | ⟨lease, answer, hl⟩
    · exact Looked.refl
    · exact (find_absorbed hu hl).1
  · obtain ⟨hk, -, hkey, hfree⟩ := hclaim claim hr
    refine ⟨hk, hkey, fun lease hlease => ?_⟩
    have hfound := (find_absorbed hu (hfree lease hlease).2).2 none rfl
    exact hfound.imp (fun hp => Option.map_eq_none_iff.mp hp.symm) And.right

theorem effect_prepare (hu : unit.Absorbs store engine storage) {delta : Delta} {extras : Extras} :
    let step := (⟨unit, none⟩ : Writer).act (.prepare key delta extras token) storage
    storage.Looked store step.2 ∧ Effect (storage.stateOf engine) ⟨unit, none⟩ step.1 := by
  simp only [Writer.act]
  split
  · next claim after hr =>
    obtain ⟨hlooked, hclaim⟩ := prepare_absorbed hu hr
    refine ⟨hlooked, ?_⟩
    cases claim with
    | none => exact .rest
    | some claim =>
      have hstream := (UnitOfWork.known_eq_ok (hclaim claim rfl).1).2
      exact .claim (List.mem_of_getElem? hstream)
  · next after hr => exact ⟨(prepare_absorbed hu hr).1, .rest⟩

theorem effect_append {log : LogState} {delta : Delta} :
    Effect log ⟨unit, none⟩ ⟨(unit.append key delta).2, none⟩ := by
  rcases unit.append_cases key delta with ⟨cause, h⟩ | ⟨handle, stream, envelope, hk, h⟩
  · rw [h]
    exact .rest
  · rw [h]
    let claim : Claim := ⟨handle, stream, envelope, none, .none⟩
    have hclaim : claim.stream ∈ unit.streams :=
      List.mem_of_getElem? (UnitOfWork.known_eq_ok hk).2
    exact .append hclaim

/-- A commit behind the absorbing layer is accepted only if the log accepts it. -/
theorem commit_absorbed (hu : unit.Absorbs store engine storage) {source : Source}
    {result : Except RepositoryError Bool}
    (h : unit.repository.commit source token storage = (result, after)) :
    unit.Absorbs store engine after ∧
      ((result ≠ .ok true ∧ after.stateOf engine = storage.stateOf engine) ∨
        (result = .ok true ∧ (storage.stateOf engine).apply source Invariant.standard =
          .ok (after.stateOf engine))) := by
  obtain ⟨session, hs, rfl⟩ := hu.session
  obtain ⟨reached, hr, hf, ho⟩ := handsOn_commit store storage source token .never
  rw [hu.repository] at h
  simp only [Repository.commit, Repository.commitUntil] at h
  have hreached : unit.Absorbs store session.engine reached :=
    absorbs_looked hu rfl ⟨hr, fun fault hm => hf ▸ hm⟩
  have hlog := stateOf_untouched hr session.engine
  rcases ho with ho | ⟨cause, ho⟩
  · rcases hc : reached.commitSession store.sessionIndex source token with ⟨verdict, last⟩
    obtain ⟨hsessions, hcount, hcases⟩ :=
      commitSession_cases (hr.sessions ▸ hs) hreached.bound hc
    rw [ho, hc] at h
    cases h
    have hscripts := scripts_commitSession reached store.sessionIndex source token
    rw [hc] at hscripts
    have hfaults : ∀ fault ∈ store.readFaults last, fault ∈ store.readFaults reached :=
      fun fault hm => readFaults_congr hscripts ▸ hm
    have hreachable : (last.stateOf session.engine).Reachable := by
      rcases hcases with ⟨-, he⟩ | ⟨-, ha⟩
      · rw [he]
        exact hreached.log
      · exact hreached.log.apply ha
    refine ⟨absorbs_carried hreached rfl (carries_of_sessions hcount hsessions) hreachable hfaults,
      ?_⟩
    rw [hlog] at hcases
    exact hcases.imp (And.imp_left fun hne hok => hne (absorb_eq_ok_true.mp hok))
      (And.imp_left absorb_eq_ok_true.mpr)
  · rw [ho] at h
    cases h
    refine ⟨hreached, .inl ⟨fun hok => ?_, hlog⟩⟩
    cases absorb_eq_ok_true.mp hok

theorem absorbs_dispose (hu : unit.Absorbs store engine storage) :
    unit.Absorbs store engine (unit.dispose storage).2 ∧
      (unit.dispose storage).2.stateOf engine = storage.stateOf engine := by
  obtain ⟨reached, hr, hf, ho⟩ := dispose_cases store storage
  have hreached : unit.Absorbs store engine reached :=
    absorbs_looked hu rfl ⟨hr, fun fault hm => hf ▸ hm⟩
  have hlog := stateOf_untouched hr engine
  unfold UnitOfWork.dispose
  rw [hu.repository]
  simp only [Repository.dispose]
  rcases ho with ho | ⟨cause, ho⟩
  · rw [ho]
    exact ⟨absorbs_carried hreached rfl (carries_dispose _) hreached.log (fun _ hm => hm), hlog⟩
  · rw [ho]
    exact ⟨hreached, hlog⟩

theorem effect_repository {log : LogState} {writer writer' : Writer}
    (h : Effect log writer writer') : writer'.unit.repository = writer.unit.repository := by
  cases h with
  | rest => rfl
  | track => rfl
  | claim => rfl
  | stage => exact stageClaim_repository
  | append => exact stageClaim_repository

/-- A look, and what the unit makes of the answer. -/
theorem absorbs_effect {writer writer' : Writer} (hu : writer.unit.Absorbs store engine storage)
    (h : storage.Looked store after ∧ Effect (storage.stateOf engine) writer writer') :
    writer'.unit.Absorbs store engine after ∧ Effect (storage.stateOf engine) writer writer' ∧
      after.stateOf engine = storage.stateOf engine :=
  ⟨absorbs_looked hu (effect_repository h.2) h.1, h.2, stateOf_untouched h.1.untouched engine⟩

/-- The staged messages of a unit get into the log as a whole, or nothing happens to the log. The
commit of no messages is accepted, too. -/
theorem commit_cases (hu : unit.Absorbs store engine storage) {stamp : Stamp}
    {result : Except StreamError Bool}
    (h : unit.commit stamp token storage = (result, unit', after)) :
    unit'.Absorbs store engine after ∧
      ((unit' = unit ∧ (result = .ok true → unit.staged = []) ∧
          after.stateOf engine = storage.stateOf engine) ∨
        (unit.staged ≠ [] ∧ result = .ok true ∧ unit' = { unit with staged := [] } ∧
          ∃ source, source.messages = unit.staged ∧
            (storage.stateOf engine).apply source Invariant.standard =
              .ok (after.stateOf engine))) := by
  rcases UnitOfWork.commitOn_cases h with ⟨rfl, rfl, hnone⟩ |
    ⟨agent, verdict, hstaged, hcommit, hverdict⟩
  · refine ⟨hu, .inl ⟨rfl, fun hok => ?_, rfl⟩⟩
    rcases hnone with ⟨hempty, -⟩ | ⟨-, cause, hcause⟩
    · exact hempty
    · cases hok.symm.trans hcause
  · obtain ⟨ha, hcases⟩ := commit_absorbed hu hcommit
    rcases hcases with ⟨hne, hlog⟩ | ⟨hok, hlog⟩
    · obtain ⟨-, hrejected, rfl⟩ := hverdict.resolve_left fun hok => hne hok.1
      exact ⟨ha, .inl ⟨rfl, fun hr => absurd hr hrejected, hlog⟩⟩
    · obtain ⟨-, hr, rfl⟩ := hverdict.resolve_right fun hne => hne.1 hok
      exact ⟨⟨ha.repository, ha.session, ha.bound, ha.log, ha.faults⟩,
        .inr ⟨hstaged, hr, rfl, _, rfl, hlog⟩⟩

end DeskLemmas

open DeskLemmas

/-- Whatever a unit does is an effect that leaves the log alone, or a commit of what it has
staged. -/
theorem act_cases {writer : Writer} {store : Store} {engine : Nat} {storage : Storage}
    {writer' : Writer} {after : Storage} (hu : writer.unit.Absorbs store engine storage)
    {action : Action} (hact : writer.act action storage = (writer', after)) :
    writer'.unit.Absorbs store engine after ∧
      ((Effect (storage.stateOf engine) writer writer' ∧
          after.stateOf engine = storage.stateOf engine) ∨
        (¬ Desk.Keeps ⟨writer, storage⟩ (.act action) ∧
          writer' = ⟨{ writer.unit with staged := [] }, none⟩ ∧
          ∃ source, source.messages = writer.unit.staged ∧
            (storage.stateOf engine).apply source Invariant.standard =
              .ok (after.stateOf engine))) := by
  obtain ⟨rfl, rfl⟩ := Prod.mk.inj hact
  obtain ⟨unit, _ | claim⟩ := writer
  · cases action with
    | create key fresh =>
      obtain ⟨ha, he⟩ := absorbs_effect hu ⟨Looked.refl, effect_create⟩
      exact ⟨ha, .inl he⟩
    | load key token =>
      rcases hr : unit.load key token storage with ⟨result, unit', after⟩
      obtain ⟨ha, he⟩ := absorbs_effect hu (effect_resolveOn hu (fun stream hs => by cases hs) hr)
      simp only [hr]
      exact ⟨ha, .inl he⟩
    | loadOrCreate key fresh token =>
      rcases hr : unit.loadOrCreate key fresh token storage with ⟨result, unit', after⟩
      obtain ⟨ha, he⟩ := absorbs_effect hu
        (effect_resolveOn hu (fun stream hs => by cases hs; exact ⟨fresh, rfl⟩) hr)
      simp only [hr]
      exact ⟨ha, .inl he⟩
    | append key delta =>
      obtain ⟨ha, he⟩ := absorbs_effect hu ⟨Looked.refl, effect_append⟩
      exact ⟨ha, .inl he⟩
    | prepare key delta extras token =>
      obtain ⟨ha, he⟩ := absorbs_effect hu (effect_prepare hu)
      exact ⟨ha, .inl he⟩
    | stage => exact ⟨hu, .inl ⟨.rest, rfl⟩⟩
    | commit stamp token =>
      rcases hc : unit.commit stamp token storage with ⟨verdict, unit', after⟩
      simp only [hc]
      obtain ⟨ha, ⟨rfl, -, hlog⟩ | ⟨hstaged, hok, rfl, hsource⟩⟩ := commit_cases hu hc
      · exact ⟨ha, .inl ⟨.rest, hlog⟩⟩
      · refine ⟨ha, .inr ⟨fun hkeeps => hkeeps rfl hstaged ?_, rfl, hsource⟩⟩
        rw [hc]
        exact hok
    | dispose =>
      obtain ⟨ha, hlog⟩ := absorbs_dispose hu
      exact ⟨ha, .inl ⟨.rest, hlog⟩⟩
  · cases action with
    | stage =>
      have heffect : Effect (storage.stateOf engine) ⟨unit, some claim⟩
          ⟨(unit.stageClaim claim).2, none⟩ := .stage
      obtain ⟨ha, he⟩ := absorbs_effect hu ⟨Looked.refl, heffect⟩
      exact ⟨ha, .inl he⟩
    | _ => exact ⟨hu, .inl ⟨.rest, rfl⟩⟩

/-! ## 3. What can happen -/

namespace DeskLemmas

variable {store : Store} {engine : Nat} {desk : Desk}

/-- What others do may add a source to the log, and the unit stays as it is. -/
theorem foreign_cases (hu : desk.writer.unit.Absorbs store engine desk.storage)
    {occasion : Occasion} (hf : Desk.Foreign desk occasion) :
    (desk.step engine occasion).writer = desk.writer ∧
      desk.writer.unit.Absorbs store engine (desk.step engine occasion).storage ∧
      ((desk.step engine occasion).storage.stateOf engine = desk.storage.stateOf engine ∨
        ∃ source, (desk.storage.stateOf engine).apply source Invariant.standard =
          .ok ((desk.step engine occasion).storage.stateOf engine)) := by
  cases occasion with
  | act action => cases hf
  | pass clock logFirst =>
    exact ⟨rfl, absorbs_looked hu rfl ⟨⟨rfl, rfl, rfl⟩, fun _ hm => hm⟩, .inl rfl⟩
  | others source =>
    have hstep : desk.step engine (.others source) = ⟨desk.writer,
        desk.storage.setState engine ((desk.storage.stateOf engine).commit source).2⟩ := rfl
    rw [hstep, LogState.commit]
    cases ha : (desk.storage.stateOf engine).apply source Invariant.standard with
    | error violation =>
      dsimp only
      have hself : desk.storage.Untouched
          (desk.storage.setState engine (desk.storage.stateOf engine)) := setState_self
      exact ⟨rfl, absorbs_looked hu rfl ⟨hself, fun _ hm => hm⟩,
        .inl (stateOf_untouched hself engine)⟩
    | ok final =>
      dsimp only
      have hlog : (desk.storage.setState engine final).stateOf engine = final :=
        stateOf_setState hu.bound
      refine ⟨rfl, absorbs_carried hu rfl (carries_of_sessions length_engines_setState rfl) ?_
        (fun _ hm => hm), .inr ⟨source, by rw [hlog, ha]⟩⟩
      rw [hlog]
      exact hu.log.apply ha

end DeskLemmas

open DeskLemmas

/-- All that can happen: the unit does something that leaves the log alone, the log grows and the
unit stays as it is, or the log grows by what the unit has staged. -/
theorem step_cases (hu : desk.writer.unit.Absorbs store engine desk.storage) (occasion : Occasion) :
    let next := desk.step engine occasion
    next.writer.unit.Absorbs store engine next.storage ∧
      ((Effect (desk.storage.stateOf engine) desk.writer next.writer ∧
          next.storage.stateOf engine = desk.storage.stateOf engine) ∨
        (next.writer = desk.writer ∧
          ∃ source, (desk.storage.stateOf engine).apply source Invariant.standard =
            .ok (next.storage.stateOf engine)) ∨
        (¬ Desk.Keeps desk occasion ∧
          next.writer = ⟨{ desk.writer.unit with staged := [] }, none⟩ ∧
          ∃ source, source.messages = desk.writer.unit.staged ∧
            (desk.storage.stateOf engine).apply source Invariant.standard =
              .ok (next.storage.stateOf engine))) := by
  intro next
  have hforeign (hf : Desk.Foreign desk occasion) := foreign_cases hu hf
  cases occasion with
  | act action =>
    obtain ⟨ha, heffect | hcommit⟩ :=
      act_cases hu (Prod.eta (desk.writer.act action desk.storage)).symm
    · exact ⟨ha, .inl heffect⟩
    · exact ⟨ha, .inr (.inr hcommit)⟩
  | _ =>
    obtain ⟨hwriter, ha, hlog | hgrown⟩ := hforeign trivial
    · exact ⟨hwriter ▸ ha, .inl ⟨hwriter ▸ .rest, hlog⟩⟩
    · exact ⟨hwriter ▸ ha, .inr (.inl ⟨hwriter, hgrown⟩)⟩

end LeaseLog
