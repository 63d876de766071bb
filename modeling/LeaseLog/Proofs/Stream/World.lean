import LeaseLog.Proofs.Storage.Session
import LeaseLog.Proofs.Stream.Backends
import LeaseLog.Proofs.Stream.Basic

/-!
# Units of work on one engine

Any number of units of work write to one engine, each through a session of its own, in any order.
A keyed append is two steps here, the look for its key and the staging, so that another unit may
commit in between; a look-up of a stream is one step, as what follows it touches only the unit that
asked.

Results:
1. `appendWith_eq_prepare`: a keyed append is its two steps.
2. `turn_of_act`: what a step of a unit can do to the log and to the unit; `stageClaim_cases`: what
   staging a claim does.
3. `world_induction`: what joins, moves and accepted commits keep holds in every reachable world.
-/

namespace LeaseLog

/-! ## Definitions -/

/-- A message that passed the look for its key and waits to be staged. -/
structure Claim where
  handle : Nat
  stream : Stream
  delta : Envelope
  keyLease : Option Lease
  extras : Extras

/-- The message that a claim stages at a version. -/
def Claim.message (claim : Claim) (version : Version) : Message :=
  .ofStream claim.stream.key ⟨claim.stream.id, version⟩ claim.delta claim.keyLease claim.extras

namespace UnitOfWork

/-- The first step of `appendWith`: everything up to the staging. There is no claim if the stream
has the message key already. -/
def prepare (unit : UnitOfWork) (key : String) (delta : Delta) (extras : Extras) (token : Token)
    (storage : Storage) : Except StreamError (Option Claim) × Storage :=
  match unit.known key with
  | .error cause => (.error cause, storage)
  | .ok (handle, stream) =>
    match Envelope.pack delta with
    | .error cause => (.error (.envelope cause), storage)
    | .ok envelope =>
      match unit.claimKeyOn unit.repository.backend key delta token storage with
      | (.error cause, storage) => (.error (.repository cause), storage)
      | (.ok keyLease, storage) =>
        (.ok (keyLease.map fun keyLease => ⟨handle, stream, envelope, keyLease, extras⟩), storage)

/-- The second step of `appendWith`. -/
def stageClaim (unit : UnitOfWork) (claim : Claim) : Except StreamError Pointer × UnitOfWork :=
  unit.stage claim.handle claim.stream claim.delta claim.keyLease claim.extras

/-- The unit of work once the message of a claim is staged at a version. -/
def push (unit : UnitOfWork) (claim : Claim) (version : Version) : UnitOfWork :=
  { unit with
    streams := unit.streams.set claim.handle { claim.stream with version }
    staged := unit.staged ++ [claim.message version] }

end UnitOfWork

/-- A unit of work, and the claim that it waits to stage. While it waits it does nothing else. -/
structure Writer where
  unit : UnitOfWork
  claim : Option Claim

/-- One step of a unit of work. An identifier that may be given to a new stream comes with the
step. -/
inductive Action
  | create (key : String) (fresh : Ident)
  | load (key : String) (token : Token)
  | loadOrCreate (key : String) (fresh : Ident) (token : Token)
  | append (key : String) (delta : Delta)
  /-- Looks for the key of a delta, for `appendWith` and `appendKeyed`. -/
  | prepare (key : String) (delta : Delta) (extras : Extras) (token : Token)
  /-- Stages the claim that waits. -/
  | stage
  | commit (stamp : Stamp) (token : Token)
  | dispose

/-- Does one step. -/
def Writer.act (writer : Writer) (action : Action) (storage : Storage) : Writer × Storage :=
  match writer.claim with
  | some claim =>
    match action with
    | .stage => (⟨(writer.unit.stageClaim claim).2, none⟩, storage)
    | _ => (writer, storage)
  | none =>
    match action with
    | .create key fresh => (⟨(writer.unit.create key fresh).2, none⟩, storage)
    | .load key token =>
      let (_, unit, storage) := writer.unit.load key token storage
      (⟨unit, none⟩, storage)
    | .loadOrCreate key fresh token =>
      let (_, unit, storage) := writer.unit.loadOrCreate key fresh token storage
      (⟨unit, none⟩, storage)
    | .append key delta => (⟨(writer.unit.append key delta).2, none⟩, storage)
    | .prepare key delta extras token =>
      match writer.unit.prepare key delta extras token storage with
      | (.ok claim, storage) => (⟨writer.unit, claim⟩, storage)
      | (.error _, storage) => (writer, storage)
    | .stage => (writer, storage)
    | .commit stamp token =>
      let (_, unit, storage) := writer.unit.commit stamp token storage
      (⟨unit, none⟩, storage)
    | .dispose => (writer, (writer.unit.dispose storage).2)

/-- What happens in a world: a unit of work starts on a session of its own, time passes, or a unit
does a step. As time passes it may change what a commit with a cancelled token notices first. -/
inductive Event
  | join (options : SessionOptions) (signature : Signature)
  | pass (clock : Clock) (logFirst : Bool)
  | act (index : Nat) (action : Action)

/-- A storage with one engine, and the units of work that use it. -/
structure World where
  storage : Storage
  writers : List Writer

namespace World

/-- One engine with an empty log. -/
def start : World := ⟨(Storage.empty.addEngine .empty).2, []⟩

/-- The log of the engine. -/
def log (world : World) : LogState := world.storage.stateOf 0

/-- A unit of work on a new session of the engine, and the storage with that session. -/
def newUnit (world : World) (options : SessionOptions) (signature : Signature) :
    UnitOfWork × Storage :=
  let (session, storage) := world.storage.addSession 0 options
  (.start (.bare (.plain session)) signature, storage)

/-- The world after an event. -/
def step (world : World) : Event → World
  | .join options signature =>
    let (unit, storage) := world.newUnit options signature
    ⟨storage, world.writers ++ [⟨unit, none⟩]⟩
  | .pass clock logFirst => ⟨{ world.storage with clock, logFirst }, world.writers⟩
  | .act index action =>
    match world.writers[index]? with
    | none => world
    | some writer =>
      let (writer, storage) := writer.act action world.storage
      ⟨storage, world.writers.set index writer⟩

/-- The world after some events. -/
def run (world : World) (events : List Event) : World := events.foldl step world

end World

/-- Whether the extras of an event, and the identifier that it brings along, are allowed. -/
def Event.Permits (extrasOk : Extras → Prop) (freshOk : Ident → Prop) : Event → Prop
  | .act _ (.create _ fresh) | .act _ (.loadOrCreate _ fresh _) => freshOk fresh
  | .act _ (.prepare _ _ extras _) => extrasOk extras
  | _ => True

/-- The worlds that events lead to whose extras and fresh identifiers are allowed. What a fresh
identifier may be depends on the units that there are. -/
inductive World.Reachable (extrasOk : Extras → Prop) (freshOk : List Writer → Ident → Prop) :
    World → Prop
  | start : Reachable extrasOk freshOk World.start
  | step {world : World} (event : Event) : Reachable extrasOk freshOk world →
      event.Permits extrasOk (freshOk world.writers) → Reachable extrasOk freshOk (world.step event)

/-- Whether the extras and the fresh identifiers of some events are allowed when they come. -/
def World.Permits (extrasOk : Extras → Prop) (freshOk : List Writer → Ident → Prop) :
    World → List Event → Prop
  | _, [] => True
  | world, event :: events => event.Permits extrasOk (freshOk world.writers) ∧
      Permits extrasOk freshOk (world.step event) events

/-- A lease of a message key of a stream that no staged message takes and that nobody holds. -/
structure Vacant (log : LogState) (unit : UnitOfWork) (key : String) (lease : Lease) : Prop where
  keyed : ∃ messageKey, lease = messageLease key messageKey
  unstaged : unit.isStaged lease = false
  free : log.leaseHolder lease = none

/-- What a step makes of the unit that does it, as long as the log stays as it is. -/
inductive Move (extrasOk : Extras → Prop) (freshOk : Ident → Prop) (log : LogState) :
    Writer → Writer → Prop
  | create {unit : UnitOfWork} {key : String} {fresh : Ident} :
      unit.handle? key = none → freshOk fresh →
      Move extrasOk freshOk log ⟨unit, none⟩ ⟨(unit.track (.unwritten key fresh)).2, none⟩
  | find {unit : UnitOfWork} {key : String} {pointer : Pointer} :
      unit.handle? key = none → log.pointerOf? (streamLease key) = some pointer →
      Move extrasOk freshOk log ⟨unit, none⟩ ⟨(unit.track (.found key pointer)).2, none⟩
  | claim {unit : UnitOfWork} {key : String} {claim : Claim} :
      unit.known key = .ok (claim.handle, claim.stream) → extrasOk claim.extras →
      (∀ lease, claim.keyLease = some lease → Vacant log unit key lease) →
      Move extrasOk freshOk log ⟨unit, none⟩ ⟨unit, some claim⟩
  | stage {unit : UnitOfWork} {claim : Claim} :
      Move extrasOk freshOk log ⟨unit, some claim⟩ ⟨(unit.stageClaim claim).2, none⟩

/-- What a step of a unit makes of the log and of the unit. -/
inductive Turn (extrasOk : Extras → Prop) (freshOk : Ident → Prop) (log : LogState) :
    Writer → LogState → Writer → Prop
  | rest {writer : Writer} : Turn extrasOk freshOk log writer log writer
  | move {writer after : Writer} :
      Move extrasOk freshOk log writer after → Turn extrasOk freshOk log writer log after
  | append {unit : UnitOfWork} {claim : Claim} :
      Move extrasOk freshOk log ⟨unit, none⟩ ⟨unit, some claim⟩ →
      Turn extrasOk freshOk log ⟨unit, none⟩ log ⟨(unit.stageClaim claim).2, none⟩
  | commit {unit : UnitOfWork} {source : Source} {final : LogState} :
      source.messages = unit.staged → log.apply source Invariant.standard = .ok final →
      Turn extrasOk freshOk log ⟨unit, none⟩ final ⟨{ unit with staged := [] }, none⟩

/-- A unit of work reads and writes engine `0`, through a plain session. -/
def UnitOfWork.OnEngine (unit : UnitOfWork) (storage : Storage) : Prop :=
  ∃ index session, unit.repository = .bare (.plain index) ∧
    storage.sessions[index]? = some session ∧ session.engine = 0

/-- There are as many engines as before, and every session is still there, on the same engine. -/
structure Storage.Carries (before after : Storage) : Prop where
  engines : after.engines.length = before.engines.length
  sessions : ∀ (index : Nat) (session : Session), before.sessions[index]? = some session →
    ∃ session' : Session, after.sessions[index]? = some session' ∧ session'.engine = session.engine

/-- There is an engine, its log is a reachable state, and all units of work are on it. -/
structure World.Wired (world : World) : Prop where
  engine : 0 < world.storage.engines.length
  log : world.log.Reachable
  units : ∀ writer ∈ world.writers, writer.unit.OnEngine world.storage

/-- A property of the log and of the units is kept by everything that can happen in a world. The
log is a reachable state in all of it. -/
structure KeptByEvents (extrasOk : Extras → Prop) (freshOk : List Writer → Ident → Prop)
    (Inv : LogState → List Writer → Prop) : Prop where
  join : ∀ log writers repository signature, Inv log writers →
    Inv log (writers ++ [⟨.start repository signature, none⟩])
  move : ∀ log writers index writer after, log.Reachable → Inv log writers →
    writers[index]? = some writer → Move extrasOk (freshOk writers) log writer after →
    Inv log (writers.set index after)
  commit : ∀ log writers index unit source final, log.Reachable → Inv log writers →
    writers[index]? = some ⟨unit, none⟩ → source.messages = unit.staged →
    log.apply source Invariant.standard = .ok final →
    Inv final (writers.set index ⟨{ unit with staged := [] }, none⟩)

/-! ## 1. The two steps of a keyed append -/

/-- A keyed append is the look for its key and then the staging of the claim, if there is one. -/
theorem appendWith_eq_prepare (unit : UnitOfWork) (key : String) (delta : Delta) (extras : Extras)
    (token : Token) (storage : Storage) :
    unit.appendWith key delta extras token storage =
      match unit.prepare key delta extras token storage with
      | (.error cause, storage) => (.error cause, unit, storage)
      | (.ok none, storage) => (.ok false, unit, storage)
      | (.ok (some claim), storage) =>
        let (result, unit) := unit.stageClaim claim
        (result.map fun _ => true, unit, storage) := by
  unfold UnitOfWork.appendWith UnitOfWork.appendWithOn UnitOfWork.prepare
  cases unit.known key with
  | error cause => rfl
  | ok found =>
    cases Envelope.pack delta with
    | error cause => rfl
    | ok envelope =>
      simp only
      rcases unit.claimKeyOn unit.repository.backend key delta token storage with
        ⟨_ | _ | keyLease, after⟩ <;> rfl

/-- What a claim is for, and what was asked before it was made. -/
theorem prepare_spec {unit : UnitOfWork} {key : String} {delta : Delta} {extras : Extras}
    {token : Token} {storage after : Storage} {result : Except StreamError (Option Claim)}
    (h : unit.prepare key delta extras token storage = (result, after)) :
    (after = storage ∨
        ∃ lease answer, unit.repository.backend.find lease token storage = (answer, after)) ∧
      ∀ claim, result = .ok (some claim) →
        unit.known key = .ok (claim.handle, claim.stream) ∧ claim.extras = extras ∧
        claim.keyLease = delta.messageKey.map (messageLease key) ∧
        ∀ lease, claim.keyLease = some lease → unit.isStaged lease = false ∧
          unit.repository.backend.find lease token storage = (.ok none, after) := by
  unfold UnitOfWork.prepare at h
  split at h
  · cases h
    exact ⟨.inl rfl, nofun⟩
  · next hk =>
    split at h
    · cases h
      exact ⟨.inl rfl, nofun⟩
    · split at h
      · next hl =>
        cases h
        exact ⟨(UnitOfWork.claimKeyOn_cases hl).1, nofun⟩
      · next keyLease _ hl =>
        obtain ⟨hasked, hkey⟩ := UnitOfWork.claimKeyOn_cases hl
        cases h
        refine ⟨hasked, fun claim hr => ?_⟩
        cases keyLease with
        | none => cases hr
        | some keyLease =>
          cases hr
          exact ⟨hk, rfl, hkey keyLease rfl⟩

/-! ## 2. What a step can do -/

open AcceptedLemmas

namespace WorldLemmas

variable {extrasOk : Extras → Prop} {freshOk : Ident → Prop} {storage after : Storage}
  {unit unit' : UnitOfWork} {writer : Writer} {key : String} {token : Token}

theorem Carries.refl : storage.Carries storage := ⟨rfl, fun _ session h => ⟨session, h, rfl⟩⟩

theorem carries_of_sessions (he : after.engines.length = storage.engines.length)
    (hs : after.sessions = storage.sessions) : storage.Carries after :=
  ⟨he, fun _ session h => ⟨session, hs ▸ h, rfl⟩⟩

theorem carries_dispose (index : Nat) : storage.Carries (storage.disposeSession index) := by
  refine ⟨rfl, fun i session h => ?_⟩
  by_cases hi : index = i
  · subst hi
    exact ⟨{ session with closed := true }, by simp [Storage.disposeSession, h], rfl⟩
  · exact ⟨session, by simp [Storage.disposeSession, hi, h], rfl⟩

/-- A lookup changes nothing but the clock, and an answer is the current state of the holder. -/
theorem find_cases (hu : unit.OnEngine storage) (hc : (storage.stateOf 0).Coherent) {lease : Lease}
    {result : Except RepositoryError (Option Pointer)}
    (h : unit.repository.backend.find lease token storage = (result, after)) :
    (after = storage ∨ after = storage.spend) ∧
      ∀ found, result = .ok found → found = (storage.stateOf 0).pointerOf? lease := by
  obtain ⟨index, session, hr, hs, he⟩ := hu
  rw [hr, find_plain hs (he ▸ hc), he] at h
  cases ho : session.ensureOpen with
  | error cause =>
    rw [ho] at h
    cases h
    exact ⟨.inl rfl, fun found hf => by cases hf⟩
  | ok _ =>
    rw [ho] at h
    cases hp : (storage.stateOf 0).pointerOf? lease with
    | none =>
      rw [hp] at h
      cases h
      exact ⟨.inr rfl, fun found hf => by cases hf; rfl⟩
    | some pointer =>
      rw [hp] at h
      cases h
      refine ⟨.inr rfl, fun found hf => ?_⟩
      split at hf
      · cases hf
      · cases hf
        rfl

/-- What a look-up does to the storage goes unnoticed. -/
theorem turn_of_look {writer' : Writer} (ha : after = storage ∨ after = storage.spend)
    (ht : Turn extrasOk freshOk (storage.stateOf 0) writer (storage.stateOf 0) writer') :
    storage.Carries after ∧
      Turn extrasOk freshOk (storage.stateOf 0) writer (after.stateOf 0) writer' := by
  rcases ha with rfl | rfl
  · exact ⟨Carries.refl, ht⟩
  · exact ⟨carries_of_sessions rfl rfl, ht⟩

theorem turn_create {fresh : Ident} (hf : freshOk fresh) {log : LogState} :
    Turn extrasOk freshOk log ⟨unit, none⟩ log ⟨(unit.create key fresh).2, none⟩ := by
  rcases unit.create_cases key fresh with ⟨cause, h⟩ | ⟨hk, h⟩
  · rw [h]
    exact .rest
  · rw [h]
    exact .move (.create hk hf)

/-- A stream is looked up; if it is taken for absent, it is what `absent` says, without messages and
with an identifier that may be given to it. -/
theorem turn_resolveOn {absent : Except StreamError Stream} (hu : unit.OnEngine storage)
    (hc : (storage.stateOf 0).Coherent)
    (hf : ∀ stream, absent = .ok stream → ∃ fresh, freshOk fresh ∧ stream = .unwritten key fresh)
    {result : Except StreamError Nat}
    (h : unit.resolveOn unit.repository.backend key absent token storage = (result, unit', after)) :
    storage.Carries after ∧
      Turn extrasOk freshOk (storage.stateOf 0) ⟨unit, none⟩ (after.stateOf 0) ⟨unit', none⟩ := by
  rcases UnitOfWork.resolveOn_cases h with ⟨-, rfl, rfl | ⟨answer, hl⟩⟩ |
    ⟨pointer?, stream, hn, hl, hstream, -, rfl⟩
  · exact turn_of_look (.inl rfl) .rest
  · exact turn_of_look (find_cases hu hc hl).1 .rest
  · obtain ⟨ha, hp⟩ := find_cases hu hc hl
    rcases hstream with ⟨rfl, hs⟩ | ⟨pointer, rfl, rfl⟩
    · obtain ⟨fresh, hfresh, rfl⟩ := hf stream hs
      exact turn_of_look ha (.move (.create hn hfresh))
    · exact turn_of_look ha (.move (.find hn (hp _ rfl).symm))

/-- A claim is for a stream that the unit knows, and the lease of its key is vacant. -/
theorem prepare_cases {delta : Delta} {extras : Extras} (hu : unit.OnEngine storage)
    (hc : (storage.stateOf 0).Coherent) {result : Except StreamError (Option Claim)}
    (h : unit.prepare key delta extras token storage = (result, after)) :
    (after = storage ∨ after = storage.spend) ∧ ∀ claim, result = .ok (some claim) →
      unit.known key = .ok (claim.handle, claim.stream) ∧ claim.extras = extras ∧
        ∀ lease, claim.keyLease = some lease → Vacant (storage.stateOf 0) unit key lease := by
  obtain ⟨hasked, hclaim⟩ := prepare_spec h
  refine ⟨?_, fun claim hr => ?_⟩
  · rcases hasked with rfl | ⟨lease, answer, hl⟩
    · exact .inl rfl
    · exact (find_cases hu hc hl).1
  · obtain ⟨hk, he, hkey, hfree⟩ := hclaim claim hr
    refine ⟨hk, he, fun lease hlease => ?_⟩
    obtain ⟨hunstaged, hl⟩ := hfree lease hlease
    obtain ⟨messageKey, -, rfl⟩ := Option.map_eq_some_iff.mp (hkey.symm.trans hlease)
    refine ⟨⟨messageKey, rfl⟩, hunstaged, ?_⟩
    simpa [LogState.pointerOf?] using ((find_cases hu hc hl).2 none rfl).symm

theorem turn_prepare {delta : Delta} {extras : Extras} (hu : unit.OnEngine storage)
    (hc : (storage.stateOf 0).Coherent) (he : extrasOk extras) :
    storage.Carries ((⟨unit, none⟩ : Writer).act (.prepare key delta extras token) storage).2 ∧
      Turn extrasOk freshOk (storage.stateOf 0) ⟨unit, none⟩
        (((⟨unit, none⟩ : Writer).act (.prepare key delta extras token) storage).2.stateOf 0)
        ((⟨unit, none⟩ : Writer).act (.prepare key delta extras token) storage).1 := by
  simp only [Writer.act]
  split
  · next claim after hr =>
    obtain ⟨ha, hclaim⟩ := prepare_cases hu hc hr
    cases claim with
    | none => exact turn_of_look ha .rest
    | some claim =>
      obtain ⟨hk, rfl, hfree⟩ := hclaim claim rfl
      exact turn_of_look ha (.move (.claim hk he hfree))
  · next after hr => exact turn_of_look (prepare_cases hu hc hr).1 .rest

theorem turn_append {delta : Delta} (he : extrasOk .none) {log : LogState} :
    Turn extrasOk freshOk log ⟨unit, none⟩ log ⟨(unit.append key delta).2, none⟩ := by
  rcases unit.append_cases key delta with ⟨cause, h⟩ | ⟨handle, stream, envelope, hk, h⟩
  · rw [h]
    exact .rest
  · rw [h]
    -- an append is a claim without a key that does not wait
    have hm : Move extrasOk freshOk log ⟨unit, none⟩
        ⟨unit, some ⟨handle, stream, envelope, none, .none⟩⟩ :=
      .claim hk he fun lease hl => by cases hl
    exact .append hm

theorem turn_commit {stamp : Stamp} (hu : unit.OnEngine storage)
    (hn : 0 < storage.engines.length) {result : Except StreamError Bool}
    (h : unit.commit stamp token storage = (result, unit', after)) :
    storage.Carries after ∧
      Turn extrasOk freshOk (storage.stateOf 0) ⟨unit, none⟩ (after.stateOf 0) ⟨unit', none⟩ := by
  rcases UnitOfWork.commitOn_cases h with ⟨rfl, rfl, -⟩ | ⟨agent, verdict, -, hcommit, hverdict⟩
  · exact ⟨Carries.refl, .rest⟩
  · obtain ⟨index, session, hr, hs, he⟩ := hu
    rw [hr] at hcommit
    obtain ⟨hsess, heng, hlog⟩ := commitSession_cases hs (he ▸ hn) hcommit
    rw [he] at hlog
    have hcarry := carries_of_sessions heng hsess
    -- only an accepted commit drops what was staged
    rcases hlog with ⟨hv, hlog⟩ | ⟨hv, hlog⟩
    · obtain ⟨-, -, rfl⟩ := hverdict.resolve_left fun hok => hv hok.1
      exact ⟨hcarry, hlog ▸ .rest⟩
    · obtain ⟨-, -, rfl⟩ := hverdict.resolve_right fun hne => hne.1 hv
      exact ⟨hcarry, .commit rfl hlog⟩

end WorldLemmas

open WorldLemmas

/-- Staging a claim writes the version after the one that the stream had when it was claimed. It
fails and changes nothing if there is no such version. -/
theorem stageClaim_spec (unit : UnitOfWork) (claim : Claim) :
    (∃ cause, unit.stageClaim claim = (.error cause, unit)) ∨
      ∃ version : Version, version.toNat = claim.stream.version.toNat + 1 ∧
        unit.stageClaim claim = (.ok ⟨claim.stream.id, version⟩, unit.push claim version) := by
  unfold UnitOfWork.stageClaim UnitOfWork.stage
  split
  · exact .inl ⟨_, rfl⟩
  · next version hv => exact .inr ⟨version, next_eq_ok_iff.mp hv, rfl⟩

theorem stageClaim_cases (unit : UnitOfWork) (claim : Claim) :
    (unit.stageClaim claim).2 = unit ∨
      ∃ version : Version, version.toNat = claim.stream.version.toNat + 1 ∧
        (unit.stageClaim claim).2 = unit.push claim version := by
  rcases stageClaim_spec unit claim with ⟨cause, h⟩ | ⟨version, hv, h⟩
  · exact .inl (congrArg Prod.snd h)
  · exact .inr ⟨version, hv, congrArg Prod.snd h⟩

theorem mem_staged_push {unit : UnitOfWork} {claim : Claim} {version : Version}
    {message : Message} : message ∈ (unit.push claim version).staged ↔
      message ∈ unit.staged ∨ message = claim.message version := by
  simp [UnitOfWork.push]

theorem mem_streams_push {unit : UnitOfWork} {claim : Claim} {version : Version} {stream : Stream}
    (h : stream ∈ (unit.push claim version).streams) :
    stream ∈ unit.streams ∨ stream = { claim.stream with version } :=
  List.mem_or_eq_of_mem_set h

@[simp] theorem state_message {claim : Claim} {version : Version} :
    (claim.message version).state = ⟨claim.stream.id, version⟩ := state_ofStream

/-- Whatever a unit of work does is one of its turns; the other units and their sessions stay. -/
theorem turn_of_act {extrasOk : Extras → Prop} {freshOk : Ident → Prop} {storage : Storage}
    {writer : Writer} {action : Action} {index : Nat} (hn : 0 < storage.engines.length)
    (hc : (storage.stateOf 0).Coherent) (hu : writer.unit.OnEngine storage)
    (he : extrasOk .none) (hp : (Event.act index action).Permits extrasOk freshOk) :
    storage.Carries (writer.act action storage).2 ∧
      Turn extrasOk freshOk (storage.stateOf 0) writer
        ((writer.act action storage).2.stateOf 0) (writer.act action storage).1 := by
  obtain ⟨unit, _ | claim⟩ := writer
  · cases action with
    | create key fresh => exact ⟨Carries.refl, turn_create hp⟩
    | load key token => exact turn_resolveOn hu hc (fun stream hs => by cases hs) rfl
    | loadOrCreate key fresh token =>
      exact turn_resolveOn hu hc (fun stream hs => by cases hs; exact ⟨fresh, hp, rfl⟩) rfl
    | append key delta => exact ⟨Carries.refl, turn_append he⟩
    | prepare key delta extras token => exact turn_prepare hu hc hp
    | stage => exact ⟨Carries.refl, .rest⟩
    | commit stamp token => exact turn_commit hu hn rfl
    | dispose =>
      obtain ⟨session, _, hr, -⟩ := hu
      have hd : unit.dispose storage = (.ok (), storage.disposeSession session) := by
        rw [UnitOfWork.dispose, hr]
        rfl
      simp only [Writer.act, hd]
      exact ⟨carries_dispose session, .rest⟩
  · cases action with
    | stage => exact ⟨Carries.refl, .move .stage⟩
    | _ => exact ⟨Carries.refl, .rest⟩

/-! ## 3. Induction over the events -/

namespace WorldLemmas

variable {extrasOk : Extras → Prop} {log log' : LogState} {before after : Storage}
  {world : World} {writer writer' : Writer}

theorem stageClaim_repository {unit : UnitOfWork} {claim : Claim} :
    (unit.stageClaim claim).2.repository = unit.repository := by
  rcases stageClaim_cases unit claim with h | ⟨version, -, h⟩ <;> rw [h]
  rfl

theorem turn_repository {freshOk : Ident → Prop}
    (h : Turn extrasOk freshOk log writer log' writer') :
    writer'.unit.repository = writer.unit.repository := by
  cases h with
  | rest => rfl
  | move hm =>
    cases hm with
    | create => rfl
    | find => rfl
    | claim => rfl
    | stage => exact stageClaim_repository
  | append => exact stageClaim_repository
  | commit => rfl

theorem turn_log {freshOk : Ident → Prop} (hl : log.Reachable)
    (h : Turn extrasOk freshOk log writer log' writer') : log'.Reachable := by
  cases h with
  | rest => exact hl
  | move => exact hl
  | append => exact hl
  | commit _ ha => exact hl.apply ha

theorem onEngine_of_carries {unit unit' : UnitOfWork} (hu : unit.OnEngine before)
    (hr : unit'.repository = unit.repository) (hc : before.Carries after) :
    unit'.OnEngine after := by
  obtain ⟨index, session, hs, hi, he⟩ := hu
  obtain ⟨session', hi', he'⟩ := hc.sessions index session hi
  exact ⟨index, session', hr.trans hs, hi', he'.trans he⟩

theorem wired_start : World.start.Wired :=
  ⟨by decide, .empty, by simp [World.start]⟩

theorem wired_step {freshOk : Ident → Prop} {event : Event} (hw : world.Wired)
    (he : extrasOk .none) (hp : event.Permits extrasOk freshOk) : (world.step event).Wired := by
  cases event with
  | join options signature =>
    have hcarry : world.storage.Carries (world.storage.addSession 0 options).2 :=
      ⟨rfl, fun index session h => ⟨session, by
        rw [← h]
        exact List.getElem?_append_left (List.getElem?_eq_some_iff.mp h).1, rfl⟩⟩
    refine ⟨hw.engine, hw.log, fun writer hm => ?_⟩
    rcases List.mem_append.mp hm with hm | hm
    · exact onEngine_of_carries (hw.units writer hm) rfl hcarry
    · cases List.mem_singleton.mp hm
      exact ⟨world.storage.sessions.length, ⟨0, options, false⟩, rfl,
        List.getElem?_concat_length, rfl⟩
  | pass clock logFirst => exact ⟨hw.engine, hw.log, hw.units⟩
  | act index action =>
    simp only [World.step]
    split
    · exact hw
    · next writer hi =>
      have hm := List.mem_of_getElem? hi
      obtain ⟨hcarry, ht⟩ := turn_of_act hw.engine (coherent_of_reachable hw.log)
        (hw.units writer hm) he hp
      refine ⟨hcarry.engines.symm ▸ hw.engine, turn_log hw.log ht, fun other ho => ?_⟩
      rcases List.mem_or_eq_of_mem_set ho with ho | rfl
      · exact onEngine_of_carries (hw.units other ho) rfl hcarry
      · exact onEngine_of_carries (hw.units writer hm) (turn_repository ht) hcarry

variable {freshOk : List Writer → Ident → Prop} {Inv : LogState → List Writer → Prop}

theorem set_eq_self {α : Type} {items : List α} {index : Nat} {item : α}
    (h : items[index]? = some item) : items.set index item = items := by
  obtain ⟨hlen, rfl⟩ := List.getElem?_eq_some_iff.mp h
  exact List.set_getElem_self hlen

theorem kept_by_turn {writers : List Writer} {index : Nat} (hk : KeptByEvents extrasOk freshOk Inv)
    (hl : log.Reachable) (hi : Inv log writers) (hw : writers[index]? = some writer)
    (ht : Turn extrasOk (freshOk writers) log writer log' writer') :
    Inv log' (writers.set index writer') := by
  cases ht with
  | rest => rwa [set_eq_self hw]
  | move hm => exact hk.move _ _ _ _ _ hl hi hw hm
  | append hm =>
    -- the claim is written over by the staging that follows it at once
    have hc := hk.move _ _ _ _ _ hl hi hw hm
    have hlen : index < writers.length := (List.getElem?_eq_some_iff.mp hw).1
    have hs := hk.move _ _ index _ _ hl hc (List.getElem?_set_self hlen) .stage
    rwa [List.set_set] at hs
  | commit hs ha => exact hk.commit _ _ _ _ _ _ hl hi hw hs ha

end WorldLemmas

theorem reachable_run {extrasOk : Extras → Prop} {freshOk : List Writer → Ident → Prop}
    {events : List Event} : ∀ {world : World}, world.Reachable extrasOk freshOk →
      world.Permits extrasOk freshOk events → (world.run events).Reachable extrasOk freshOk := by
  induction events with
  | nil => exact fun h _ => h
  | cons event events ih => exact fun h hp => ih (.step event h hp.1) hp.2

theorem wired_of_reachable {extrasOk : Extras → Prop} {freshOk : List Writer → Ident → Prop}
    {world : World} (he : extrasOk .none) (h : world.Reachable extrasOk freshOk) : world.Wired := by
  induction h with
  | start => exact wired_start
  | step event _ hp ih => exact wired_step ih he hp

/-- A property that every event keeps holds in every reachable world, if it holds of an empty log
without units of work. -/
theorem world_induction {extrasOk : Extras → Prop} {freshOk : List Writer → Ident → Prop}
    {Inv : LogState → List Writer → Prop} (he : extrasOk .none) (h0 : Inv .empty [])
    (hk : KeptByEvents extrasOk freshOk Inv) {world : World}
    (h : world.Reachable extrasOk freshOk) : Inv world.log world.writers := by
  induction h with
  | start => exact h0
  | @step world event hr hp ih =>
    have hw := wired_of_reachable he hr
    cases event with
    | join options signature => exact hk.join _ _ _ _ ih
    | pass clock logFirst => exact ih
    | act index action =>
      simp only [World.step]
      split
      · exact ih
      · next writer hi =>
        obtain ⟨-, ht⟩ := turn_of_act hw.engine (coherent_of_reachable hw.log)
          (hw.units writer (List.mem_of_getElem? hi)) he hp
        exact kept_by_turn hk hw.log ih hi ht

end LeaseLog
