import LeaseLog.Proofs.State.Replay
import LeaseLog.Proofs.Stream.Naming

/-!
# Optimistic concurrency is exact

A unit of work numbers its messages when it stages them, and other units may commit before it does.
Its own commit is accepted if the streams that it writes are as it left them, and only then.

That nothing else refuses a commit is a fact about all units together. A message asks for the lease
of its stream and of its message key, and both name the stream; so whoever has one of them is the
entity of that stream.

Results:
1. `lined_track`, `lined_push`: the table of a unit and its staged messages stay in line.
2. `kept_aligned`: the invariant is kept by everything that can happen in a world.
3. `fitAll_iff_upToDate`: staged messages fit behind the log if and only if their streams are up to
   date.
4. `commit_iff_upToDate`: this is what decides about a commit of a unit that can sign.
-/

namespace LeaseLog

/-! ## Definitions -/

/-- The extras carry tags only. -/
def Extras.Leaseless (extras : Extras) : Prop :=
  extras.addLeases = [] ∧ extras.removeLeases = []

/-- The first staged message of a stream. -/
def UnitOfWork.firstStaged (unit : UnitOfWork) (stream : Stream) : Option Message :=
  unit.staged.find? fun message => decide (message.state.id = stream.id)

/-- Every stream with staged messages is stored at the version before the first one of them, and no
other entity holds the lease of its key. -/
def UnitOfWork.UpToDate (unit : UnitOfWork) (log : LogState) : Prop :=
  ∀ stream ∈ unit.streams, ∀ first ∈ unit.firstStaged stream,
    (log.versionOf stream.id).toNat + 1 = first.state.version.toNat ∧
      ∀ holder ∈ log.leaseHolder (streamLease stream.key), holder = stream.id

instance (unit : UnitOfWork) (log : LogState) : Decidable (unit.UpToDate log) :=
  inferInstanceAs (Decidable (∀ stream ∈ unit.streams, ∀ first ∈ unit.firstStaged stream,
    (log.versionOf stream.id).toNat + 1 = first.state.version.toNat ∧
      ∀ holder ∈ log.leaseHolder (streamLease stream.key), holder = stream.id))

/-- A unit of work that does not wait has staged messages; its session is open and may write, and a
token is not cancelled. -/
structure World.Ready (world : World) (unit : UnitOfWork) (token : Token) : Prop where
  idle : ⟨unit, none⟩ ∈ world.writers
  staged : unit.staged ≠ []
  session : ∃ index session, unit.repository = .bare (.plain index) ∧
    world.storage.sessions[index]? = some session ∧
    session.closed = false ∧ session.options.readOnly = false
  token : token.isCancelled world.storage.refresh.now = false

/-- A message takes the lease of a stream, and at most that of a message key besides. -/
structure Confined (key : String) (message : Message) : Prop where
  takes : streamLease key ∈ message.addLeases
  only : ∀ lease ∈ message.addLeases,
    lease = streamLease key ∨ ∃ messageKey, lease = messageLease key messageKey
  keeps : ∀ lease, lease ∉ message.removeLeases

/-- A claim stages a confined message. -/
structure Claim.Tame (claim : Claim) : Prop where
  extras : claim.extras.Leaseless
  keyed : ∀ lease, claim.keyLease = some lease →
    ∃ messageKey, lease = messageLease claim.stream.key messageKey

/-- The table of a unit of work and its staged messages are in line. -/
structure Lined (unit : UnitOfWork) : Prop where
  indexed : unit.Indexed
  /-- A stream is as many versions beyond a staged message as it has messages after that one. -/
  numbered : ∀ stream ∈ unit.streams, ∀ earlier message rest,
    unit.staged = earlier ++ message :: rest → message.state.id = stream.id →
    message.state.version.toNat + writes rest stream.id = stream.version.toNat
  confined : ∀ message ∈ unit.staged, ∃ key, (message.state.id, key) ∈ unit.names ∧
    Confined key message

/-- The invariant of one unit of work and its claim. -/
structure Steady (writer : Writer) : Prop where
  lined : Lined writer.unit
  tame : ∀ claim, writer.claim = some claim → claim.Tame

/-- The invariant of a world. -/
structure Aligned (log : LogState) (writers : List Writer) : Prop where
  named : Named log writers
  committed : ∀ message ∈ log.messages, ∃ key, Confined key message
  steady : ∀ writer ∈ writers, Steady writer

/-! ## 1. One unit of work -/

open HistoryLemmas NamingLemmas

namespace OptimisticLemmas

variable {unit : UnitOfWork} {stream other : Stream} {messages earlier rest : List Message}
  {message last : Message} {id : Ident} {key : String} {index position : Nat}

theorem split_concat (h : messages ++ [last] = earlier ++ message :: rest) :
    (messages = earlier ∧ last = message ∧ rest = []) ∨
      ∃ others, messages = earlier ++ message :: others ∧ rest = others ++ [last] := by
  rcases List.eq_nil_or_concat rest with rfl | ⟨others, final, rfl⟩
  · obtain ⟨he, hl⟩ := List.append_inj' h rfl
    exact .inl ⟨he, List.singleton_inj.mp hl, rfl⟩
  · rw [List.concat_eq_append] at h ⊢
    rw [← List.cons_append, ← List.append_assoc] at h
    obtain ⟨he, hl⟩ := List.append_inj' h rfl
    exact .inr ⟨others, he, by rw [List.singleton_inj.mp hl]⟩

theorem writes_split :
    writes (earlier ++ message :: rest) id =
      writes earlier id + (writes rest id + if message.state.id = id then 1 else 0) := by
  rw [writes_append]
  simp only [writes, List.countP_cons, decide_eq_true_eq]

theorem mem_names : (id, key) ∈ unit.names ↔
    ∃ stream ∈ unit.streams, stream.id = id ∧ stream.key = key := by
  simp [UnitOfWork.names]

theorem handle?_of_stream (hl : Lined unit) (hi : unit.streams[index]? = some stream) :
    unit.handle? stream.key = some index := by
  rw [hl.indexed, UnitOfWork.names, List.map_map, List.getElem?_map, hi]
  rfl

/-- A key is in the table of a unit once. -/
theorem index_unique (hl : Lined unit) (hi : unit.streams[index]? = some stream)
    (hp : unit.streams[position]? = some other) (hk : stream.key = other.key) :
    index = position := by
  have hindex := handle?_of_stream hl hi
  rw [hk, handle?_of_stream hl hp] at hindex
  exact (Option.some.inj hindex).symm

theorem key_of_known (hl : Lined unit) (h : unit.known key = .ok (index, stream)) :
    stream.key = key := by
  obtain ⟨hk, hs⟩ := UnitOfWork.known_eq_ok h
  rw [hl.indexed, UnitOfWork.names, List.map_map, List.getElem?_map, hs] at hk
  exact Option.some.inj hk

theorem not_mem_names (hl : Lined unit) (h : unit.handle? key = none) :
    (id, key) ∉ unit.names := by
  intro hm
  obtain ⟨stream, hs, -, rfl⟩ := mem_names.mp hm
  obtain ⟨index, hi⟩ := List.getElem?_of_mem hs
  rw [handle?_of_stream hl hi] at h
  cases h

/-- The stream of a staged message. -/
theorem stream_of_staged (hl : Lined unit) (hm : message ∈ unit.staged) :
    ∃ stream ∈ unit.streams, message.state.id = stream.id ∧ Confined stream.key message := by
  obtain ⟨key, hname, hc⟩ := hl.confined message hm
  obtain ⟨stream, hs, hid, rfl⟩ := mem_names.mp hname
  exact ⟨stream, hs, hid.symm, hc⟩

theorem lined_start {repository : Repository} {signature : Signature} :
    Lined (.start repository signature) where
  indexed := indexed_start
  numbered stream hs := by cases hs
  confined message hm := by cases hm

theorem lined_committed (hl : Lined unit) : Lined { unit with staged := [] } where
  indexed := hl.indexed
  numbered stream _ earlier message rest h := by simp at h
  confined message hm := by cases hm

end OptimisticLemmas

open OptimisticLemmas

/-- A unit may take a stream in under a new key if it has staged nothing for its entity. -/
theorem lined_track {unit : UnitOfWork} {stream : Stream} (hl : Lined unit)
    (hk : unit.handle? stream.key = none)
    (hnone : ∀ message ∈ unit.staged, message.state.id ≠ stream.id) :
    Lined (unit.track stream).2 where
  indexed := indexed_track hl.indexed hk
  numbered other ho earlier message rest h hid := by
    rcases List.mem_append.mp ho with ho | ho
    · exact hl.numbered other ho earlier message rest h hid
    · cases List.mem_singleton.mp ho
      have hm : message ∈ unit.staged := by
        show message ∈ (unit.track stream).2.staged
        simp [h]
      exact absurd hid (hnone message hm)
  confined message hm := by
    obtain ⟨key, hn, hc⟩ := hl.confined message hm
    refine ⟨key, ?_, hc⟩
    rw [names_track]
    exact List.mem_append_left _ hn

namespace OptimisticLemmas

variable {unit : UnitOfWork} {claim : Claim} {version : Version}

theorem confined_message (ht : claim.Tame) :
    Confined claim.stream.key (claim.message version) where
  takes := mem_addLeases_ofStream.mpr (.inl rfl)
  only lease hl := by
    rcases mem_addLeases_ofStream.mp hl with rfl | hk | he
    · exact .inl rfl
    · exact .inr (ht.keyed lease hk)
    · rw [ht.extras.1] at he
      cases he
  keeps lease hl := by
    have he := mem_removeLeases_ofStream.mp hl
    rw [ht.extras.2] at he
    cases he

end OptimisticLemmas

/-- A unit may stage a confined message of one of its streams, if no other one of them is of the
same entity. -/
theorem lined_push {unit : UnitOfWork} {claim : Claim} {version : Version} (hl : Lined unit)
    (hs : unit.streams[claim.handle]? = some claim.stream)
    (hone : ∀ index stream, unit.streams[index]? = some stream → stream.id = claim.stream.id →
      index = claim.handle)
    (hv : version.toNat = claim.stream.version.toNat + 1) (ht : claim.Tame) :
    Lined (unit.push claim version) where
  indexed := indexed_push hl.indexed hs version
  numbered stream hm earlier message rest h hid := by
    obtain ⟨index, hi⟩ := List.getElem?_of_mem hm
    have hi : (unit.streams.set claim.handle { claim.stream with version })[index]? = some stream :=
      hi
    by_cases he : claim.handle = index
    · -- the stream that is written: the new message is its last one
      subst he
      rw [List.getElem?_set_self (List.getElem?_eq_some_iff.mp hs).1] at hi
      cases hi
      have hid : message.state.id = claim.stream.id := hid
      show message.state.version.toNat + writes rest claim.stream.id = version.toNat
      rcases split_concat h with ⟨-, rfl, rfl⟩ | ⟨others, hsplit, rfl⟩
      · rw [state_message]
        rfl
      · have hbefore := hl.numbered claim.stream (List.mem_of_getElem? hs) earlier message others
          hsplit hid
        rw [writes_concat, state_message, if_pos rfl, hv, ← hbefore]
        rfl
    · -- the new message is of another entity
      rw [List.getElem?_set_ne he] at hi
      have hne : claim.stream.id ≠ stream.id := fun hid => he (hone index stream hi hid.symm).symm
      rcases split_concat h with ⟨-, rfl, rfl⟩ | ⟨others, hsplit, rfl⟩
      · rw [state_message] at hid
        exact absurd hid hne
      · rw [writes_concat, state_message, if_neg hne]
        exact hl.numbered stream (List.mem_of_getElem? hi) earlier message others hsplit hid
  confined message hm := by
    rw [names_push hs version]
    rcases mem_staged_push.mp hm with hm | rfl
    · exact hl.confined message hm
    · refine ⟨claim.stream.key, ?_, confined_message ht⟩
      rw [state_message]
      exact List.mem_map_of_mem (List.mem_of_getElem? hs)

/-! ## 2. All units of work -/

namespace OptimisticLemmas

variable {log final : LogState} {source : Source} {unit : UnitOfWork} {claim : Claim}
  {writers : List Writer} {writer after : Writer} {index : Nat} {stream other : Stream}

theorem move_mono {extrasOk extrasOk' : Extras → Prop} {freshOk : Ident → Prop}
    (h : ∀ extras, extrasOk extras → extrasOk' extras)
    (hm : Move extrasOk freshOk log writer after) : Move extrasOk' freshOk log writer after := by
  cases hm with
  | create hk hf => exact .create hk hf
  | find hk hp => exact .find hk hp
  | claim hk he hfree => exact .claim hk (h _ he) hfree
  | stage => exact .stage

theorem avoids_of_leaseless {scope : String} {extras : Extras} (h : extras.Leaseless) :
    extras.Avoids scope := by
  refine ⟨fun lease hl => ?_, fun lease hl => ?_⟩
  · rw [h.1] at hl
    cases hl
  · rw [h.2] at hl
    cases hl

/-- Streams of one unit are of different entities. -/
theorem index_of_id (hn : Named log writers) (hw : writer ∈ writers) (hl : Lined writer.unit)
    {position : Nat} (hi : writer.unit.streams[index]? = some stream)
    (hp : writer.unit.streams[position]? = some other) (he : stream.id = other.id) :
    index = position := by
  have hstream : Names writers other.id stream.key :=
    ⟨writer, hw, mem_names.mpr ⟨stream, List.mem_of_getElem? hi, he, rfl⟩⟩
  have hother : Names writers other.id other.key :=
    ⟨writer, hw, mem_names.mpr ⟨other, List.mem_of_getElem? hp, rfl, rfl⟩⟩
  exact index_unique hl hi hp (hn.functional other.id _ _ hstream hother)

theorem steady_idle (hl : Lined unit) : Steady ⟨unit, none⟩ :=
  ⟨hl, fun claim hc => by cases hc⟩

theorem steady_of_move (ha : Aligned log writers) (hw : writer ∈ writers)
    (hm : Move Extras.Leaseless (Unused writers) log writer after) : Steady after := by
  have hl : Lined writer.unit := (ha.steady writer hw).lined
  cases hm with
  | @create unit key fresh hk hf =>
    refine steady_idle (lined_track hl hk fun message hm hid => ?_)
    obtain ⟨stream, hs, he, -⟩ := stream_of_staged hl hm
    exact hf _ hw stream hs (he.symm.trans hid)
  | @find unit key pointer hk hp =>
    refine steady_idle (lined_track hl hk fun message hm hid => ?_)
    -- the entity that was found is known under the key that the unit does not have
    obtain ⟨id, hh, rfl⟩ := Option.map_eq_some_iff.mp hp
    obtain ⟨name, hname, -⟩ := hl.confined message hm
    have hid : message.state.id = id := hid
    rw [hid] at hname
    have hnames : Names writers id name := ⟨_, hw, hname⟩
    cases ha.named.functional id name key hnames (ha.named.held key id hh)
    exact not_mem_names hl hk hname
  | @claim unit key claim hk he hfree =>
    refine ⟨hl, fun other ho => ?_⟩
    cases ho
    refine ⟨he, fun lease hlease => ?_⟩
    rw [key_of_known hl hk]
    exact (hfree lease hlease).keyed
  | @stage unit claim =>
    have hs : unit.streams[claim.handle]? = some claim.stream :=
      (ha.named.awaited _ hw claim rfl).stream
    refine steady_idle ?_
    rcases stageClaim_cases unit claim with h | ⟨version, hv, h⟩
    · rw [h]
      exact hl
    · rw [h]
      exact lined_push hl hs (fun position stream hp he => index_of_id ha.named hw hl hp hs he) hv
        ((ha.steady _ hw).tame claim rfl)

theorem aligned_of_move (ha : Aligned log writers) (hi : writers[index]? = some writer)
    (hm : Move Extras.Leaseless (Unused writers) log writer after) :
    Aligned log (writers.set index after) where
  named := named_of_move ha.named hi (move_mono (fun _ => avoids_of_leaseless) hm)
  committed := ha.committed
  steady other ho := by
    rcases List.mem_or_eq_of_mem_set ho with ho | rfl
    · exact ha.steady other ho
    · exact steady_of_move ha (List.mem_of_getElem? hi) hm

theorem aligned_of_commit (ha : Aligned log writers) (hi : writers[index]? = some ⟨unit, none⟩)
    (hs : source.messages = unit.staged)
    (hf : log.apply source Invariant.standard = .ok final) :
    Aligned final (writers.set index ⟨{ unit with staged := [] }, none⟩) := by
  have hl : Lined unit := (ha.steady _ (List.mem_of_getElem? hi)).lined
  refine ⟨named_of_commit ha.named hi hs hf, fun message hm => ?_, fun other ho => ?_⟩
  · rw [messages_of_apply hf, hs] at hm
    rcases List.mem_append.mp hm with hm | hm
    · exact ha.committed message hm
    · obtain ⟨key, -, hc⟩ := hl.confined message hm
      exact ⟨key, hc⟩
  · rcases List.mem_or_eq_of_mem_set ho with ho | rfl
    · exact ha.steady other ho
    · exact steady_idle (lined_committed hl)

theorem aligned_of_join (ha : Aligned log writers) {repository : Repository}
    {signature : Signature} :
    Aligned log (writers ++ [⟨.start repository signature, none⟩]) where
  named := named_of_join ha.named
  committed := ha.committed
  steady other ho := by
    rcases List.mem_append.mp ho with ho | ho
    · exact ha.steady other ho
    · cases List.mem_singleton.mp ho
      exact steady_idle lined_start

theorem aligned_empty : Aligned .empty [] where
  named := named_empty
  committed message hm := by cases hm
  steady writer hw := by cases hw

end OptimisticLemmas

theorem kept_aligned : KeptByEvents Extras.Leaseless Unused Aligned where
  join _ _ _ _ ha := aligned_of_join ha
  move _ _ _ _ _ _ ha hi hm := aligned_of_move ha hi hm
  commit _ _ _ _ _ _ _ ha hi hs hf := aligned_of_commit ha hi hs hf

/-! ## 3. What fits behind the log -/

namespace OptimisticLemmas

variable {log : LogState} {writers : List Writer} {writer : Writer} {unit : UnitOfWork}
  {stream : Stream} {messages earlier rest : List Message} {message other first : Message}
  {id : Ident} {key name : String} {lease : Lease}

/-- A lease tells the stream key of the confined message that takes it. -/
theorem key_unique (hc : Confined key message) (ho : Confined name other)
    (hm : lease ∈ message.addLeases) (hl : lease ∈ other.addLeases) : key = name := by
  rcases hc.only lease hm with rfl | ⟨messageKey, rfl⟩ <;>
    rcases ho.only _ hl with h | ⟨otherKey, h⟩ <;>
    simp_all [streamLease, messageLease]

theorem keeps_of_confined (h : ∀ message ∈ messages, ∃ key, Confined key message) :
    Keeps messages lease := by
  intro message hm
  obtain ⟨key, hc⟩ := h message hm
  exact hc.keeps lease

theorem split_of_firstStaged (h : unit.firstStaged stream = some first) :
    first.state.id = stream.id ∧ ∃ earlier rest, unit.staged = earlier ++ first :: rest ∧
      writes earlier stream.id = 0 := by
  obtain ⟨hid, earlier, rest, hsplit, hnone⟩ := List.find?_eq_some_iff_append.mp h
  refine ⟨of_decide_eq_true hid, earlier, rest, hsplit, writes_eq_zero.mpr fun message hm he => ?_⟩
  have hne := hnone message hm
  simp [he] at hne

theorem exists_firstStaged (hm : message ∈ unit.staged) (hid : message.state.id = stream.id) :
    ∃ first, unit.firstStaged stream = some first := by
  refine Option.isSome_iff_exists.mp (List.find?_isSome.mpr ⟨message, hm, ?_⟩)
  exact decide_eq_true hid

/-- The versions of the staged messages of a stream count on from the first one. -/
theorem version_of_firstStaged (hl : Lined unit) (hs : stream ∈ unit.streams)
    (hf : unit.firstStaged stream = some first) (h : unit.staged = earlier ++ message :: rest)
    (hid : message.state.id = stream.id) :
    message.state.version.toNat = first.state.version.toNat + writes earlier stream.id := by
  obtain ⟨hfirst, before, after, hsplit, hzero⟩ := split_of_firstStaged hf
  have hv := hl.numbered stream hs earlier message rest h hid
  have hv' := hl.numbered stream hs before first after hsplit hfirst
  have hcount : writes (before ++ first :: after) stream.id =
      writes (earlier ++ message :: rest) stream.id := by rw [← hsplit, h]
  rw [writes_split, writes_split, if_pos hfirst, if_pos hid] at hcount
  omega

theorem stream_unique (ha : Aligned log writers) (hw : writer ∈ writers) {stream other : Stream}
    (hs : stream ∈ writer.unit.streams) (ho : other ∈ writer.unit.streams)
    (h : stream.id = other.id ∨ stream.key = other.key) : stream = other := by
  obtain ⟨index, hi⟩ := List.getElem?_of_mem hs
  obtain ⟨position, hp⟩ := List.getElem?_of_mem ho
  have hl := (ha.steady writer hw).lined
  have he : index = position := h.elim (index_of_id ha.named hw hl hi hp) (index_unique hl hi hp)
  subst he
  exact Option.some.inj (hi.symm.trans hp)

/-- Whoever took a lease of a stream in the log holds the lease of its key. -/
theorem leaseHolder_of_taker (ha : Aligned log writers) (hc : Confined key message)
    (hl : lease ∈ message.addLeases) (ho : other ∈ log.messages) (ht : lease ∈ other.addLeases) :
    log.leaseHolder (streamLease key) = some other.state.id := by
  obtain ⟨name, hother⟩ := ha.committed other ho
  cases key_unique hc hother hl ht
  obtain ⟨name, hspeaks, hheld⟩ := ha.named.committed other ho
  cases (hspeaks.takes_iff key).mp hother.takes
  exact hheld

theorem keeps_before (ha : Aligned log writers) (hw : writer ∈ writers)
    (h : writer.unit.staged = earlier ++ rest) : Keeps (log.messages ++ earlier) lease := by
  refine keeps_of_confined fun other ho => ?_
  rcases List.mem_append.mp ho with ho | ho
  · exact ha.committed other ho
  · have hm : other ∈ writer.unit.staged := h ▸ List.mem_append_left rest ho
    obtain ⟨stream, -, -, hc⟩ := stream_of_staged (ha.steady writer hw).lined hm
    exact ⟨stream.key, hc⟩

theorem fits_of_upToDate (ha : Aligned log writers) (hr : Reads log.messages log)
    (hw : writer ∈ writers) (hu : writer.unit.UpToDate log)
    (h : writer.unit.staged = earlier ++ message :: rest) :
    Fits (log.messages ++ earlier) message := by
  have hl : Lined writer.unit := (ha.steady writer hw).lined
  have hm : message ∈ writer.unit.staged := h ▸ List.mem_append_right earlier List.mem_cons_self
  obtain ⟨stream, hs, hid, hc⟩ := stream_of_staged hl hm
  obtain ⟨first, hf⟩ := exists_firstStaged hm hid
  obtain ⟨hversion, hholder⟩ := hu stream hs first hf
  refine ⟨?_, fun lease hlease id hne hlast => ?_⟩
  · have hv := version_of_firstStaged hl hs hf h hid
    rw [hr.version] at hversion
    rw [hid, writes_append]
    omega
  · obtain ⟨other, ho, rfl, ht⟩ := (lastLeases_of_keeps (keeps_before ha hw h)).mp hlast
    rw [hid] at hne
    -- another entity took the lease in the log, or it has a message in the same buffer
    rcases List.mem_append.mp ho with ho | ho
    · exact hne (hholder _ (leaseHolder_of_taker ha hc hlease ho ht))
    · have ho : other ∈ writer.unit.staged := h ▸ List.mem_append_left _ ho
      obtain ⟨found, hfound, hother, hcother⟩ := stream_of_staged hl ho
      have hkey : stream.key = found.key := key_unique hc hcother hlease ht
      cases stream_unique ha hw hs hfound (.inr hkey)
      exact hne hother

theorem upToDate_of_fitAll (ha : Aligned log writers) (hr : Reads log.messages log)
    (hw : writer ∈ writers) (h : FitAll log.messages writer.unit.staged) :
    writer.unit.UpToDate log := by
  intro stream hs first hf
  obtain ⟨hid, earlier, rest, hsplit, hzero⟩ := split_of_firstStaged hf
  obtain ⟨hfollows, hfree⟩ := h earlier first rest hsplit
  have hm : first ∈ writer.unit.staged :=
    hsplit ▸ List.mem_append_right earlier List.mem_cons_self
  obtain ⟨other, ho, hother, hc⟩ := stream_of_staged (ha.steady writer hw).lined hm
  cases stream_unique ha hw hs ho (.inl (hid.symm.trans hother))
  refine ⟨?_, fun holder hh => Decidable.byContradiction fun hne => ?_⟩
  · rw [hid, writes_append, hzero] at hfollows
    rw [hr.version, hfollows, Nat.add_comm]
    rfl
  · have hkeeps : Keeps (log.messages ++ earlier) (streamLease stream.key) :=
      keeps_before ha hw hsplit
    have hlog : Keeps log.messages (streamLease stream.key) :=
      fun message hm => hkeeps message (List.mem_append_left _ hm)
    obtain ⟨taker, ht, htaker, hl⟩ := (lastLeases_of_keeps hlog).mp ((hr.holder _ holder).mp hh)
    have hlast : LastLeases (log.messages ++ earlier) holder (streamLease stream.key) :=
      (lastLeases_of_keeps hkeeps).mpr ⟨taker, List.mem_append_left _ ht, htaker, hl⟩
    exact hfree _ hc.takes holder (hid ▸ hne) hlast

end OptimisticLemmas

/-- The staged messages of a unit fit behind the log one after another if and only if their streams
are up to date. -/
theorem fitAll_iff_upToDate {log : LogState} {writers : List Writer} {writer : Writer}
    (ha : Aligned log writers) (hr : Reads log.messages log) (hw : writer ∈ writers) :
    FitAll log.messages writer.unit.staged ↔ writer.unit.UpToDate log :=
  ⟨upToDate_of_fitAll ha hr hw, fun hu _ _ _ h => fits_of_upToDate ha hr hw hu h⟩

/-! ## 4. Commits -/

namespace OptimisticLemmas

variable {storage : Storage} {index : Nat} {session : Session} {source : Source} {token : Token}
  {unit : UnitOfWork} {stamp : Stamp} {agent : Envelope}

/-- A session that may write answers with the verdict of the rules. -/
theorem commitSession_verdict (hs : storage.sessions[index]? = some session)
    (hw : session.ensureWritable = .ok ()) (ht : token.isCancelled storage.refresh.now = false) :
    (storage.commitSession index source token).1 =
      .ok ((storage.stateOf session.engine).commit source).1 := by
  simp only [Storage.commitSession, hs, hw, ht]
  rfl

theorem commit_verdict (hr : unit.repository = .bare (.plain index))
    (hs : storage.sessions[index]? = some session) (hw : session.ensureWritable = .ok ())
    (ht : token.isCancelled storage.refresh.now = false) (hne : unit.staged ≠ [])
    (ha : unit.signature = .ok agent) :
    (unit.commit stamp token storage).1 =
      .ok ((storage.stateOf session.engine).commit (.ofStamp stamp agent unit.staged)).1 := by
  have hcommit :
      (unit.repository.backend.commit (.ofStamp stamp agent unit.staged) token storage).1 =
      .ok ((storage.stateOf session.engine).commit (.ofStamp stamp agent unit.staged)).1 := by
    rw [hr]
    exact commitSession_verdict hs hw ht
  rw [UnitOfWork.commit, UnitOfWork.commitOn, if_neg (by simpa using hne), ha]
  simp only
  split
  · next hc =>
    rw [hc] at hcommit
    cases hcommit
  · next hc =>
    rw [hc] at hcommit
    exact congrArg Except.ok (Except.ok.inj hcommit)
  · next hc =>
    rw [hc] at hcommit
    exact congrArg Except.ok (Except.ok.inj hcommit)

theorem commit_eq_true {log : LogState} :
    (log.commit source).1 = true ↔ ∃ final, log.apply source Invariant.standard = .ok final := by
  rw [LogState.commit]
  cases log.apply source Invariant.standard <;> simp

end OptimisticLemmas

/-- In every reachable world without foreign leases, a commit of staged messages is accepted if and
only if their streams are up to date, and rejected otherwise, if the unit can sign. If it cannot,
the commit fails for that reason and changes nothing. -/
theorem commit_iff_upToDate {world : World} (h : world.Reachable Extras.Leaseless Unused)
    {unit : UnitOfWork} {token : Token} (hready : world.Ready unit token) (stamp : Stamp) :
    (∀ agent, unit.signature = .ok agent →
      ((unit.commit stamp token world.storage).1 = .ok true ↔ unit.UpToDate world.log) ∧
      ((unit.commit stamp token world.storage).1 = .ok false ↔ ¬ unit.UpToDate world.log)) ∧
    ∀ cause, unit.signature = .error cause →
      unit.commit stamp token world.storage = (.error (.envelope cause), unit, world.storage) := by
  have ha := world_induction ⟨rfl, rfl⟩ aligned_empty kept_aligned h
  have hwired := wired_of_reachable ⟨rfl, rfl⟩ h
  have hr := reads_of_reachable hwired.log
  have hc := coherent_of_reachable hwired.log
  obtain ⟨index, session, hrepo, hs, hopen, hwrite⟩ := hready.session
  refine ⟨fun agent hagent => ?_, fun cause hcause => ?_⟩
  · have hengine : session.engine = 0 := by
      obtain ⟨index', session', hrepo', hs', he⟩ := hwired.units _ hready.idle
      cases hrepo.symm.trans hrepo'
      cases hs.symm.trans hs'
      exact he
    have hv : (unit.commit stamp token world.storage).1 =
        .ok (world.log.commit (.ofStamp stamp agent unit.staged)).1 := by
      have hw : session.ensureWritable = .ok () := by
        simp [Session.ensureWritable, hopen, hwrite]
      rw [commit_verdict hrepo hs hw hready.token hready.staged hagent, hengine]
      rfl
    have haccepted : (world.log.commit (.ofStamp stamp agent unit.staged)).1 = true ↔
        unit.UpToDate world.log := by
      rw [commit_eq_true, apply_accepts_iff_fits hr hc]
      exact fitAll_iff_upToDate ha hr hready.idle
    rw [hv, ← haccepted]
    simp
  · rw [UnitOfWork.commit, UnitOfWork.commitOn, if_neg (by simpa using hready.staged), hcause]

/-- Two units of work load a stream of one message and stage one more each. -/
def exLateEvents : List Event :=
  let delta : Delta := ⟨.native "note", .ok .null, none⟩
  [.join .writer (.ok default), .join .writer (.ok default), .join .writer (.ok default),
    .act 0 (.create "orders" (.ofNat 1)), .act 0 (.append "orders" delta),
    .act 0 (.commit default .never),
    .act 1 (.load "orders" .never), .act 2 (.load "orders" .never),
    .act 1 (.append "orders" delta), .act 2 (.append "orders" delta)]

/-- Both units have staged their message. -/
def exLate : World := World.start.run exLateEvents

/-- The first of the two units has committed. -/
def exLater : World := exLate.step (.act 1 (.commit default .never))

/-- The first of the two may commit. Once it has, the second one may not any more. -/
theorem commit_iff_upToDate_late :
    World.start.Permits Extras.Leaseless Unused exLateEvents ∧
    ∃ first second : UnitOfWork,
      exLate.writers[1]? = some ⟨first, none⟩ ∧
      (first.commit default .never exLate.storage).1 = .ok true ∧
      exLater.writers[2]? = some ⟨second, none⟩ ∧
      (second.commit default .never exLater.storage).1 = .ok false := by
  have hp : World.start.Permits Extras.Leaseless Unused exLateEvents := by
    refine ⟨trivial, trivial, trivial, ?_, trivial, trivial, trivial, trivial, trivial, trivial,
      trivial⟩
    show Unused _ (.ofNat 1)
    decide
  have hlate : exLate.Reachable Extras.Leaseless Unused := reachable_run .start hp
  have hlater : exLater.Reachable Extras.Leaseless Unused := hlate.step _ trivial
  refine ⟨hp, _, _, rfl, ?_, rfl, ?_⟩
  · have hready : exLate.Ready _ .never :=
      ⟨List.mem_of_getElem? (i := 1) rfl, by decide,
        ⟨1, ⟨0, .writer, false⟩, rfl, rfl, rfl, rfl⟩, rfl⟩
    exact ((commit_iff_upToDate hlate hready default).1 default rfl).1.mpr (by decide)
  · have hready : exLater.Ready _ .never :=
      ⟨List.mem_of_getElem? (i := 2) rfl, by decide,
        ⟨2, ⟨0, .writer, false⟩, rfl, rfl, rfl, rfl⟩, rfl⟩
    exact ((commit_iff_upToDate hlater hready default).1 default rfl).2.mpr (by decide)

/-- A unit of work that cannot sign stages the first message of a stream. -/
def exUnsigned : World :=
  World.start.run
    [.join .writer (.error (.serialization ⟨"no key", none⟩)),
      .act 0 (.create "orders" (.ofNat 1)),
      .act 0 (.append "orders" ⟨.native "note", .ok .null, none⟩)]

/-- Its streams are up to date, but a commit is neither accepted nor rejected. -/
theorem unsigned_commit_fails :
    exUnsigned.Reachable Extras.Leaseless Unused ∧
    ∃ unit : UnitOfWork, exUnsigned.Ready unit .never ∧ unit.UpToDate exUnsigned.log ∧
      (unit.commit default .never exUnsigned.storage).1 =
        .error (.envelope (.serialization ⟨"no key", none⟩)) := by
  have hr : exUnsigned.Reachable Extras.Leaseless Unused := by
    refine reachable_run .start ⟨trivial, ?_, trivial, trivial⟩
    show Unused _ (.ofNat 1)
    decide
  have hready : exUnsigned.Ready _ .never :=
    ⟨List.mem_of_getElem? (i := 0) rfl, by decide,
      ⟨0, ⟨0, .writer, false⟩, rfl, rfl, rfl, rfl⟩, rfl⟩
  exact ⟨hr, _, hready, by decide, rfl⟩

end LeaseLog
