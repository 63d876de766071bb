import LeaseLog.Proofs.CommandLine.Journals
import LeaseLog.Proofs.Storage.Session
import LeaseLog.Proofs.Stream.Basic

/-!
# What an append does to a log

An append of the program opens a session, looks its stream up, gathers one message and commits it.
Nobody else uses the log meanwhile and nothing is cancelled, so what comes out of this depends on
the log alone.

Results:
1. `runAppend_eq`: an append as a function of the log.
2. `run_append`: a whole run of an append, from its configuration and its journal to its result.
3. `run_saved`: no other command writes.
-/

namespace LeaseLog.CommandLine

/-! ## Definitions -/

/-- An append as it reaches a log. -/
structure Posting where
  key : String
  resolution : Resolution
  /-- The identifier of the stream, if one is started. -/
  fresh : Ident
  delta : Envelope
  messageKey : Option String
  stamp : Stamp
  agent : Envelope

namespace Posting

/-- The lease of the message key. -/
def keyLease (posting : Posting) : Option Lease :=
  posting.messageKey.map (messageLease posting.key)

/-- The stream that is appended to; `none` if it has to exist and does not. -/
def stream? (posting : Posting) (state : LogState) : Option Stream :=
  match posting.resolution, state.pointerOf? (streamLease posting.key) with
  | .create, _ | .loadOrCreate, none => some (.unwritten posting.key posting.fresh)
  | .loadOrCreate, some pointer | .load, some pointer => some (.found posting.key pointer)
  | .load, none => none

/-- The stream has the message key already. -/
def Duplicate (posting : Posting) (state : LogState) : Prop :=
  ∃ lease ∈ posting.keyLease, (state.leaseHolder lease).isSome

instance (posting : Posting) (state : LogState) : Decidable (posting.Duplicate state) :=
  inferInstanceAs (Decidable (∃ lease ∈ posting.keyLease, _))

/-- The message that is appended to a stream at a version. -/
def message (posting : Posting) (stream : Stream) (version : Version) : Message :=
  .ofStream posting.key ⟨stream.id, version⟩ posting.delta posting.keyLease .none

/-- The source that is committed. -/
def source (posting : Posting) (stream : Stream) (version : Version) : Source :=
  .ofStamp posting.stamp posting.agent [posting.message stream version]

/-- What is printed of a stream. -/
def report (stream : Stream) (staged committed : Bool) (version : Version) : AppendReport :=
  ⟨stream.id, stream.isNew, staged, committed, version⟩

/-- What an append makes of a log. A stream that has the message key already is committed as it is,
which writes the log as it was. -/
def result (posting : Posting) (options : SessionOptions) (state : LogState) :
    Except StreamError Result :=
  match posting.stream? state with
  | none => .error (.unknownKey posting.key)
  | some stream =>
    if posting.Duplicate state then
      .ok ⟨some state.sources, (report stream false true stream.version).toJson⟩
    else
      match stream.version.next with
      | .error cause => .error (.version cause)
      | .ok version =>
        if options.readOnly then .error (.repository .readOnly)
        else
          match state.apply (posting.source stream version) Invariant.standard with
          | .ok final => .ok ⟨some final.sources, (report stream true true version).toJson⟩
          | .error _ => .ok ⟨none, (report stream true false version).toJson⟩

end Posting

/-- The storage of a run: one engine, one session on it, and a clock. -/
def opened (state : LogState) (options : SessionOptions) (clock : Clock) : Storage :=
  ⟨[⟨state, 1⟩], [⟨0, options, false⟩], [], [], [⟨true⟩], clock, false⟩

/-- The unit of work of a run before it looked its stream up. -/
def idle (agent : Envelope) : UnitOfWork := .start (.bare (.plain 0)) (.ok agent)

/-- The unit of work of a run that has looked its stream up. -/
def holding (agent : Envelope) (stream : Stream) : UnitOfWork := ((idle agent).track stream).2

/-! ## 1. Appends -/

namespace AppendsLemmas

variable {state : LogState} {options : SessionOptions} {clock : Clock} {agent : Envelope}
  {posting : Posting} {stream : Stream}

theorem find_opened (hc : state.Coherent) {unit : UnitOfWork}
    (hu : unit.repository = .bare (.plain 0)) (lease : Lease) :
    unit.repository.backend.find lease .never (opened state options clock) =
      (.ok (state.pointerOf? lease), opened state options clock.spend) := by
  have hsession : (opened state options clock).sessions[0]? = some ⟨0, options, false⟩ := rfl
  rw [hu, find_plain hsession hc]
  cases hp : state.pointerOf? lease <;>
    simp [Session.ensureOpen, opened, Storage.stateOf, hp, Token.never, Token.isCancelled,
      Storage.spend]

theorem commit_opened (source : Source) :
    ∃ clock', (opened state options clock).commitSession 0 source .never =
      if options.readOnly then (.error .readOnly, opened state options clock)
      else (.ok (state.commit source).1, opened (state.commit source).2 options clock') := by
  refine ⟨clock.refresh.spend, ?_⟩
  by_cases hr : options.readOnly = true
  · rw [if_pos hr]
    simp [Storage.commitSession, opened, Session.ensureWritable, hr]
  · rw [if_neg hr]
    simp [Storage.commitSession, opened, Session.ensureWritable, hr, Token.never, Token.isCancelled,
      Storage.refresh, Storage.readLog, Storage.stateOf, Storage.setState, Storage.spend]

theorem handle?_holding : (holding agent stream).handle? stream.key = some 0 := by
  simp [holding, idle, UnitOfWork.track, UnitOfWork.handle?, UnitOfWork.start]

theorem known_holding : (holding agent stream).known stream.key = .ok (0, stream) := by
  rw [UnitOfWork.known, handle?_holding]
  rfl

theorem key_of_stream? (h : posting.stream? state = some stream) : stream.key = posting.key := by
  unfold Posting.stream? at h
  split at h <;> cases h <;> rfl

/-- The stream of an append is looked up, unless it has to exist and does not. -/
theorem resolve_opened (hc : state.Coherent) (posting : Posting) :
    ∃ clock', Factory.resolve (idle agent) posting.resolution posting.key posting.fresh .never
        (opened state options clock) =
      match posting.stream? state with
      | none => (.error (.unknownKey posting.key), idle agent, opened state options clock')
      | some stream => (.ok 0, holding agent stream, opened state options clock') := by
  have hunknown : (idle agent).ensureUnknown posting.key = .ok () := by
    simp [UnitOfWork.ensureUnknown, UnitOfWork.handle?, idle, UnitOfWork.start]
  have hfind := @find_opened state options clock hc (idle agent) rfl (streamLease posting.key)
  unfold Posting.stream? Factory.resolve
  cases hres : posting.resolution with
  | create =>
    -- nothing is looked up, so no time passes
    refine ⟨clock, ?_⟩
    simp only [UnitOfWork.create, hunknown]
    rfl
  | loadOrCreate =>
    refine ⟨clock.spend, ?_⟩
    simp only [UnitOfWork.loadOrCreate, UnitOfWork.resolveOn, hunknown, hfind]
    cases state.pointerOf? (streamLease posting.key) <;> rfl
  | load =>
    refine ⟨clock.spend, ?_⟩
    simp only [UnitOfWork.load, UnitOfWork.resolveOn, hunknown, hfind]
    cases state.pointerOf? (streamLease posting.key) <;> rfl

/-- The unit of work of a run that has gathered its message. -/
def staged (agent : Envelope) (stream : Stream) (version : Version) (message : Message) :
    UnitOfWork :=
  { holding agent stream with streams := [{ stream with version }], staged := [message] }

theorem stage_holding (delta : Envelope) (keyLease : Option Lease) :
    (holding agent stream).stage 0 stream delta keyLease .none =
      match stream.version.next with
      | .error cause => (.error (.version cause), holding agent stream)
      | .ok version =>
        (.ok ⟨stream.id, version⟩, staged agent stream version
          (.ofStream stream.key ⟨stream.id, version⟩ delta keyLease .none)) := by
  rw [UnitOfWork.stage]
  cases stream.version.next <;> rfl

/-- The message of an append is gathered, unless the stream has its key already. -/
theorem stageDelta_opened (hc : state.Coherent) (hs : posting.stream? state = some stream) :
    ∃ clock', stageDelta ⟨holding agent stream, 0⟩
        ⟨posting.delta.dataType, .ok posting.delta.data, posting.messageKey⟩
        (opened state options clock) =
      if posting.Duplicate state then
        (.ok false, ⟨holding agent stream, 0⟩, opened state options clock')
      else
        match stream.version.next with
        | .error cause =>
          (.error (.version cause), ⟨holding agent stream, 0⟩, opened state options clock')
        | .ok version =>
          (.ok true, ⟨staged agent stream version (posting.message stream version), 0⟩,
            opened state options clock') := by
  have hkey := key_of_stream? hs
  have hknown : (holding agent stream).known posting.key = .ok (0, stream) := hkey ▸ known_holding
  have hstream : (⟨holding agent stream, 0⟩ : SingleStream).stream = stream := rfl
  have hstage := fun keyLease => @stage_holding agent stream posting.delta keyLease
  rw [hkey] at hstage
  unfold stageDelta
  cases hmk : posting.messageKey with
  | none =>
    have hnone : posting.keyLease = none := by rw [Posting.keyLease, hmk]; rfl
    have hnot : ¬ posting.Duplicate state := by simp [Posting.Duplicate, hnone]
    refine ⟨clock, ?_⟩
    rw [if_neg hnot]
    simp only [SingleStream.append, SingleStream.key, hstream, hkey, UnitOfWork.append, hknown,
      Envelope.pack, hstage, Posting.message, hnone]
    cases stream.version.next <;> rfl
  | some messageKey =>
    have hlease : posting.keyLease = some (messageLease posting.key messageKey) := by
      rw [Posting.keyLease, hmk]
      rfl
    have hfind := @find_opened state options clock hc (holding agent stream) rfl
      (messageLease posting.key messageKey)
    have hfresh : (holding agent stream).isStaged (messageLease posting.key messageKey) = false :=
      rfl
    refine ⟨clock.spend, ?_⟩
    simp only [SingleStream.appendKeyed, SingleStream.appendWith, SingleStream.key, hstream, hkey,
      UnitOfWork.appendWith, UnitOfWork.appendWithOn, hknown, Envelope.pack, UnitOfWork.claimKeyOn,
      hfresh, hfind, LogState.pointerOf?, Bool.false_eq_true, if_false]
    cases hh : state.leaseHolder (messageLease posting.key messageKey) with
    | none =>
      have hnot : ¬ posting.Duplicate state := by simp [Posting.Duplicate, hlease, hh]
      rw [if_neg hnot]
      simp only [Option.map_none, hstage, Posting.message, hlease]
      cases stream.version.next <;> rfl
    | some holder =>
      have hdup : posting.Duplicate state := by simp [Posting.Duplicate, hlease, hh]
      rw [if_pos hdup]
      rfl

/-- The unit of work of an append leaves its commit to the session of the engine. -/
theorem commit_plain {version : Version} (stamp : Stamp) (message : Message)
    (token : LeaseLog.Token) (storage : Storage) :
    (staged agent stream version message).commit stamp token storage =
      match storage.commitSession 0 (.ofStamp stamp agent [message]) token with
      | (.error cause, storage) =>
        (.error (.repository cause), staged agent stream version message, storage)
      | (.ok false, storage) => (.ok false, staged agent stream version message, storage)
      | (.ok true, storage) =>
        (.ok true, { staged agent stream version message with staged := [] }, storage) := by
  have hplain : (staged agent stream version message).repository.backend.commit
      (.ofStamp stamp agent [message]) token storage =
      storage.commitSession 0 (.ofStamp stamp agent [message]) token := rfl
  have hmessages : (staged agent stream version message).staged = [message] := rfl
  have hsigned : (staged agent stream version message).signature = .ok agent := rfl
  simp only [UnitOfWork.commit, UnitOfWork.commitOn, hmessages, hsigned, hplain, List.isEmpty_cons,
    Bool.false_eq_true, if_false]
  rcases storage.commitSession 0 (.ofStamp stamp agent [message]) token with
    ⟨_ | _ | _, after⟩ <;> rfl

/-- The commit of an append. Whatever comes of it, the unit of work keeps its stream. -/
theorem commit_staged {version : Version} (stamp : Stamp) (message : Message) :
    ∃ unit clock', unit.repository = .bare (.plain 0) ∧
      unit.streams = [{ stream with version }] ∧
      (staged agent stream version message).commit stamp .never (opened state options clock) =
        if options.readOnly then
          (.error (.repository .readOnly), unit, opened state options clock)
        else
          (.ok (state.commit (.ofStamp stamp agent [message])).1, unit,
            opened (state.commit (.ofStamp stamp agent [message])).2 options clock') := by
  obtain ⟨clock', hcommit⟩ :=
    @commit_opened state options clock (.ofStamp stamp agent [message])
  rw [commit_plain, hcommit]
  by_cases hr : options.readOnly = true
  · exact ⟨staged agent stream version message, clock', rfl, rfl, by rw [if_pos hr, if_pos hr]⟩
  · rw [if_neg hr]
    cases ha : (state.commit (.ofStamp stamp agent [message])).1 with
    | false =>
      exact ⟨staged agent stream version message, clock', rfl, rfl, by rw [if_neg hr]⟩
    | true =>
      exact ⟨{ staged agent stream version message with staged := [] }, clock', rfl, rfl,
        by rw [if_neg hr]⟩

theorem dispose_opened {unit : UnitOfWork} (hr : unit.repository = .bare (.plain 0)) :
    (⟨unit, 0⟩ : SingleStream).dispose (opened state options clock) =
      (.ok (), (opened state options clock).disposeSession 0) := by
  rw [SingleStream.dispose, UnitOfWork.dispose, hr]
  rfl

theorem stream_of_streams {unit : UnitOfWork} {last : Stream} (hs : unit.streams = [last]) :
    (⟨unit, 0⟩ : SingleStream).stream = last := by
  rw [SingleStream.stream, UnitOfWork.streamAt?, hs]
  rfl

theorem ofUnit_holding : SingleStream.ofUnit (holding agent stream) stream.key =
    .ok ⟨holding agent stream, 0⟩ := by
  rw [SingleStream.ofUnit, handle?_holding]

end AppendsLemmas

open AppendsLemmas

/-- The log of a run before its session is opened. -/
def unopened (state : LogState) : Storage := ((Storage.empty.addEngine ⟨state, 0⟩).2.addGuard).2

/-- An append of the program, as a function of the log. -/
theorem runAppend_eq {state : LogState} (hc : state.Coherent) (config : Config) (processId : Nat)
    (invocation : Invocation) (surroundings : Surroundings) (key : String) (dataType : DataType)
    (payload : Json) (messageKey : Option String) (resolution : Resolution) :
    runAppend ⟨⟨0, none, [], []⟩, config, 0, processId⟩ invocation surroundings key
        ⟨dataType, .ok payload, messageKey⟩ resolution (unopened state) =
      match config.agent invocation.agent, config.session invocation.session with
      | .error cause, _ => .error (.stream (.config cause))
      | .ok _, .error cause => .error (.stream (.config cause))
      | .ok profile, .ok options =>
        ((⟨key, resolution, surroundings.fresh, ⟨dataType, payload⟩, messageKey,
            surroundings.stamp, profile.sign processId⟩ : Posting).result options state).mapError
          .stream := by
  unfold runAppend Factory.createSingle Factory.createMultiple
  cases hagent : config.agent invocation.agent with
  | error cause => rfl
  | ok profile =>
    cases hsession : config.session invocation.session with
    | error cause => rfl
    | ok options =>
      let posting : Posting := ⟨key, resolution, surroundings.fresh, ⟨dataType, payload⟩,
        messageKey, surroundings.stamp, profile.sign processId⟩
      have hconnect : Connector.connect ⟨0, none, [], []⟩ 0 options (unopened state) =
          (.ok (.plain 0), ⟨0, none, [], [.plain 0]⟩, opened state options Clock.start.spend) := rfl
      obtain ⟨looked, hresolve⟩ := @resolve_opened state options Clock.start.spend
        (profile.sign processId) hc posting
      change Factory.resolve (UnitOfWork.start (.bare (.plain 0)) (.ok (profile.sign processId)))
        resolution key surroundings.fresh .never (opened state options Clock.start.spend) = _
        at hresolve
      simp only [hconnect, hresolve]
      change _ = (posting.result options state).mapError RunError.stream
      rw [Posting.result]
      cases hs : posting.stream? state with
      | none => rfl
      | some stream =>
        have hkey : stream.key = key := key_of_stream? hs
        have hunit : SingleStream.ofUnit (holding (profile.sign processId) stream) key =
            .ok ⟨holding (profile.sign processId) stream, 0⟩ := hkey ▸ ofUnit_holding
        obtain ⟨gathered, hstage⟩ := @stageDelta_opened state options looked
          (profile.sign processId) posting stream hc hs
        change stageDelta _ ⟨dataType, .ok payload, messageKey⟩ _ = _ at hstage
        simp only [hunit, hstage]
        by_cases hd : posting.Duplicate state
        · simp only [if_pos hd]
          rfl
        · simp only [if_neg hd]
          cases hv : stream.version.next with
          | error cause => rfl
          | ok version =>
            obtain ⟨unit, ended, hr, hlast, hcommit⟩ := @commit_staged state options gathered
              (profile.sign processId) stream version surroundings.stamp
              (posting.message stream version)
            simp only [SingleStream.commit, hcommit]
            by_cases ho : options.readOnly = true
            · simp only [if_pos ho]
              rfl
            · simp only [if_neg ho, SingleStream.withUnit, dispose_opened hr,
                stream_of_streams hlast]
              have hsource : posting.source stream version = .ofStamp surroundings.stamp
                  (profile.sign processId) [posting.message stream version] := rfl
              rw [LogState.commit, hsource]
              cases state.apply (.ofStamp surroundings.stamp (profile.sign processId)
                [posting.message stream version]) Invariant.standard <;> rfl

/-! ## 2. Whole runs -/

/-- What a run is when it has come as far as its command. -/
theorem run_eq (invocation : Invocation) (surroundings : Surroundings) :
    run invocation surroundings =
      match loadConfig surroundings invocation.config,
        loadLog surroundings invocation.journal with
      | .error cause, _ => .error cause
      | .ok _, .error cause => .error cause
      | .ok config, .ok state =>
        runCommand ⟨⟨0, none, [], []⟩, config, 0, surroundings.processId⟩ invocation surroundings
          (unopened state) := by
  rw [run, loadLog]
  cases loadConfig surroundings invocation.config with
  | error cause => rfl
  | ok config =>
    cases loadJournal surroundings invocation.journal with
    | error cause => rfl
    | ok sources =>
      simp only [Engine.ofSources]
      cases LogState.replay sources Invariant.standard <;> rfl

section

variable {invocation : Invocation} {surroundings : Surroundings} {key dataType data : String}
  {messageKey : Option String} {resolution : Resolution} {state : LogState} {payload : Json}

/-- An append that gets as far as its log does with it what the log decides. -/
theorem run_append_of
    (hcommand : invocation.command = .append key dataType data messageKey resolution)
    {config : Config} {profile : AgentProfile} {options : SessionOptions}
    (hconfig : loadConfig surroundings invocation.config = .ok config)
    (hlog : loadLog surroundings invocation.journal = .ok state)
    (hdata : Decoder.ofText Decoder.payload data = .ok payload)
    (hagent : config.agent invocation.agent = .ok profile)
    (hsession : config.session invocation.session = .ok options) :
    run invocation surroundings =
      ((⟨key, resolution, surroundings.fresh, ⟨.native dataType, payload⟩, messageKey,
        surroundings.stamp, profile.sign surroundings.processId⟩ : Posting).result
          options state).mapError .stream := by
  have hc : state.Coherent := coherent_of_reachable (loadLog_spec hlog).1
  rw [run_eq, hconfig, hlog]
  simp only [runCommand, hcommand, hdata, runAppend_eq hc, hagent, hsession]

/-- An append that does not fail was understood as a posting, and its result is what the log made of
that. -/
theorem run_append (hcommand : invocation.command = .append key dataType data messageKey resolution)
    {result : Result} (h : run invocation surroundings = .ok result) :
    ∃ (state : LogState) (payload : Json) (profile : AgentProfile) (options : SessionOptions),
      loadLog surroundings invocation.journal = .ok state ∧
      Decoder.ofText Decoder.payload data = .ok payload ∧
      (⟨key, resolution, surroundings.fresh, ⟨.native dataType, payload⟩, messageKey,
        surroundings.stamp, profile.sign surroundings.processId⟩ : Posting).result options state =
          .ok result := by
  rw [run_eq] at h
  cases hconfig : loadConfig surroundings invocation.config with
  | error cause => rw [hconfig] at h; cases h
  | ok config =>
    cases hlog : loadLog surroundings invocation.journal with
    | error cause => rw [hconfig, hlog] at h; cases h
    | ok state =>
      have hc : state.Coherent := coherent_of_reachable (loadLog_spec hlog).1
      rw [hconfig, hlog] at h
      simp only [runCommand, hcommand] at h
      cases hdata : Decoder.ofText Decoder.payload data with
      | error cause => rw [hdata] at h; cases h
      | ok payload =>
        simp only [hdata, runAppend_eq hc] at h
        cases hagent : config.agent invocation.agent with
        | error cause => rw [hagent] at h; cases h
        | ok profile =>
          cases hsession : config.session invocation.session with
          | error cause => rw [hagent, hsession] at h; cases h
          | ok options =>
            simp only [hagent, hsession] at h
            refine ⟨state, payload, profile, options, rfl, rfl, ?_⟩
            revert h
            generalize Posting.result _ options state = ended
            cases ended with
            | error cause => intro h; cases h
            | ok found => intro h; cases h; rfl

/-! ## 3. Listings -/

/-- A listing writes nothing and prints a list. -/
theorem runListing_ok {factory : Factory} {listing : Listing} {query : Query}
    {write : listing.Item → Json} {storage : Storage} {result : Result}
    (h : runListing factory invocation listing query write storage = .ok result) :
    result.saved = none ∧ ∃ items : List listing.Item, result.output = .ofList write items := by
  rw [runListing] at h
  split at h
  · cases h
  · dsimp only at h
    split at h
    · cases h
    · split at h
      · cases h
      · cases h
        exact ⟨rfl, _, rfl⟩

/-- A run that is no append writes nothing and prints a list. -/
theorem run_saved (hcommand : ∀ key dataType data messageKey resolution,
      invocation.command ≠ .append key dataType data messageKey resolution)
    {result : Result} (h : run invocation surroundings = .ok result) :
    result.saved = none ∧ ∃ items, result.output = .array items := by
  rw [run_eq] at h
  split at h
  · cases h
  · cases h
  · rw [runCommand] at h
    split at h
    · rename_i hc
      exact absurd hc (hcommand _ _ _ _ _)
    all_goals
      obtain ⟨hs, items, ho⟩ := runListing_ok h
      exact ⟨hs, _, ho⟩

end

end LeaseLog.CommandLine
