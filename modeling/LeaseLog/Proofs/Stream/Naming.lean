import LeaseLog.Proofs.Stream.World

/-!
# A stream key names one sequence

A stream has no record of its own. Which entity it is follows from a lease that all its messages
take, and every unit of work keeps a table of its own. If no two streams are given the same fresh
identifier, the tables of all units agree on the key of an identifier, and whoever holds the lease
of a key is in a table with that key. From this the identity of streams follows: units that start a
stream of one key at the same time give it different identifiers, of which at most one gets into the
log.

Results:
1. `kept_named`: the invariant is kept by everything that can happen in a world.
2. `stream_key_names_sequence`: the committed messages of a key are those of one entity, they have
   the versions `1, …, n`, and this is what a new unit of work finds.
-/

namespace LeaseLog

/-! ## Definitions -/

/-- The scope of the leases of streams. -/
def streamScope : String := "stream"

/-- No unit has a stream of an identifier. -/
def Unused (writers : List Writer) (fresh : Ident) : Prop :=
  ∀ writer ∈ writers, ∀ stream ∈ writer.unit.streams, stream.id ≠ fresh

instance (writers : List Writer) (fresh : Ident) : Decidable (Unused writers fresh) :=
  inferInstanceAs
    (Decidable (∀ writer ∈ writers, ∀ stream ∈ writer.unit.streams, stream.id ≠ fresh))

/-- The identifiers and keys in the table of a unit of work. -/
def UnitOfWork.names (unit : UnitOfWork) : List (Ident × String) :=
  unit.streams.map fun stream => (stream.id, stream.key)

/-- The handle of a key is the one place where the key is in the table. -/
def UnitOfWork.Indexed (unit : UnitOfWork) : Prop :=
  ∀ key index, unit.handle? key = some index ↔ (unit.names.map Prod.snd)[index]? = some key

/-- Some unit has a stream of an identifier and a key. -/
def Names (writers : List Writer) (id : Ident) (key : String) : Prop :=
  ∃ writer ∈ writers, (id, key) ∈ writer.unit.names

/-- A message takes the lease of exactly one stream, under whose key its entity is known, and
releases none. -/
structure Speaks (writers : List Writer) (key : String) (message : Message) : Prop where
  named : Names writers message.state.id key
  takes_iff : ∀ other, streamLease other ∈ message.addLeases ↔ other = key
  keeps : ∀ other, streamLease other ∉ message.removeLeases

/-- How a claim that waits relates to the table of its unit. -/
structure Registered (unit : UnitOfWork) (claim : Claim) : Prop where
  stream : unit.streams[claim.handle]? = some claim.stream
  extras : claim.extras.Avoids streamScope
  scope : ∀ lease, claim.keyLease = some lease → lease.scope ≠ streamScope

/-- The invariant of a world. -/
structure Named (log : LogState) (writers : List Writer) : Prop where
  functional : ∀ id key other, Names writers id key → Names writers id other → key = other
  held : ∀ key id, log.leaseHolder (streamLease key) = some id → Names writers id key
  committed : ∀ message ∈ log.messages, ∃ key, Speaks writers key message ∧
    log.leaseHolder (streamLease key) = some message.state.id
  staged : ∀ writer ∈ writers, ∀ message ∈ writer.unit.staged, ∃ key, Speaks writers key message
  awaited : ∀ writer ∈ writers, ∀ claim, writer.claim = some claim → Registered writer.unit claim

/-- The committed messages that take the lease of a stream, in log order. -/
def LogState.chain (state : LogState) (key : String) : List Message :=
  state.messages.filter fun message => decide (streamLease key ∈ message.addLeases)

/-- The stream behind the handle that a look-up gave out. -/
def lookedUp (result : Except StreamError Nat × UnitOfWork × Storage) :
    Except StreamError (Option Stream) :=
  result.1.map result.2.1.streamAt?

/-! ## 1. The invariant -/

namespace NamingLemmas

variable {log final : LogState} {source : Source} {unit : UnitOfWork} {claim : Claim}
  {writers others : List Writer} {writer after : Writer} {index : Nat} {message : Message}
  {id : Ident} {key : String} {extrasOk : Extras → Prop}

theorem names_track (unit : UnitOfWork) (stream : Stream) :
    (unit.track stream).2.names = unit.names ++ [(stream.id, stream.key)] := by
  simp [UnitOfWork.track, UnitOfWork.names]

/-- A push writes a new version into the table and leaves its names as they are. -/
theorem names_push (hs : unit.streams[claim.handle]? = some claim.stream) (version : Version) :
    (unit.push claim version).names = unit.names := by
  have hget : unit.names[claim.handle]? = some (claim.stream.id, claim.stream.key) := by
    simp [UnitOfWork.names, hs]
  simp only [UnitOfWork.push, UnitOfWork.names, List.map_set]
  exact WorldLemmas.set_eq_self hget

theorem getElem?_concat_iff {α : Type} {items : List α} {item found : α} :
    (items ++ [item])[index]? = some found ↔
      items[index]? = some found ∨ index = items.length ∧ item = found := by
  rcases Nat.lt_trichotomy index items.length with h | rfl | h
  · rw [List.getElem?_append_left h]
    simp [Nat.ne_of_lt h]
  · simp
  · rw [List.getElem?_eq_none (by simp; omega), List.getElem?_eq_none (by omega)]
    simp [Nat.ne_of_gt h]

theorem handle?_track {stream : Stream} : (unit.track stream).2.handle? key =
    if stream.key = key then some unit.streams.length else unit.handle? key := by
  simp only [UnitOfWork.handle?, UnitOfWork.track, Std.ExtTreeMap.getElem?_insert,
    Std.compare_eq_iff_eq]

theorem indexed_start {repository : Repository} {signature : Signature} :
    (UnitOfWork.start repository signature).Indexed := by
  intro key index
  simp [UnitOfWork.handle?, UnitOfWork.names, UnitOfWork.start]

theorem indexed_track {stream : Stream} (hu : unit.Indexed)
    (hk : unit.handle? stream.key = none) : (unit.track stream).2.Indexed := by
  intro key index
  rw [handle?_track, names_track, List.map_append, List.map_singleton, getElem?_concat_iff,
    List.length_map]
  by_cases he : stream.key = key
  · subst he
    rw [← hu, hk, if_pos rfl]
    simp [UnitOfWork.names, eq_comm]
  · rw [if_neg he, hu]
    simp [he]

theorem indexed_push (hu : unit.Indexed) (hs : unit.streams[claim.handle]? = some claim.stream)
    (version : Version) : (unit.push claim version).Indexed := by
  intro key index
  rw [names_push hs version]
  exact hu key index

theorem names_stageClaim (hs : unit.streams[claim.handle]? = some claim.stream) :
    (unit.stageClaim claim).2.names = unit.names := by
  rcases stageClaim_cases unit claim with h | ⟨version, -, h⟩
  · rw [h]
  · rw [h]
    exact names_push hs version

theorem names_mono (hi : writers[index]? = some writer)
    (hsub : ∀ pair ∈ writer.unit.names, pair ∈ after.unit.names) (h : Names writers id key) :
    Names (writers.set index after) id key := by
  obtain ⟨other, ho, hp⟩ := h
  obtain ⟨position, hpos⟩ := List.getElem?_of_mem ho
  by_cases he : index = position
  · subst he
    cases hi.symm.trans hpos
    exact ⟨after, List.mem_set (List.getElem?_eq_some_iff.mp hi).1 after, hsub _ hp⟩
  · refine ⟨other, ?_, hp⟩
    exact List.mem_of_getElem? (by rw [List.getElem?_set_ne he, hpos])

theorem names_set (h : Names (writers.set index after) id key) :
    Names writers id key ∨ (id, key) ∈ after.unit.names := by
  obtain ⟨other, ho, hp⟩ := h
  rcases List.mem_or_eq_of_mem_set ho with ho | rfl
  · exact .inl ⟨other, ho, hp⟩
  · exact .inr hp

theorem speaks_mono (hs : Speaks writers key message)
    (hmono : Names writers message.state.id key → Names others message.state.id key) :
    Speaks others key message :=
  ⟨hmono hs.named, hs.takes_iff, hs.keeps⟩

/-! ### Moves of a unit -/

/-- What a move of a unit has to satisfy to keep the invariant: its table only grows, and an
identifier still has one key. -/
theorem named_of_set (hn : Named log writers) (hi : writers[index]? = some writer)
    (hsub : ∀ pair ∈ writer.unit.names, pair ∈ after.unit.names)
    (hfun : ∀ id key other, Names (writers.set index after) id key →
      Names (writers.set index after) id other → key = other)
    (hstaged : ∀ message ∈ after.unit.staged,
      ∃ key, Speaks (writers.set index after) key message)
    (hawaited : ∀ claim, after.claim = some claim → Registered after.unit claim) :
    Named log (writers.set index after) where
  functional := hfun
  held key id hh := names_mono hi hsub (hn.held key id hh)
  committed message hm := by
    obtain ⟨key, hs, hh⟩ := hn.committed message hm
    exact ⟨key, speaks_mono hs (names_mono hi hsub), hh⟩
  staged other ho message hm := by
    rcases List.mem_or_eq_of_mem_set ho with ho | rfl
    · obtain ⟨key, hs⟩ := hn.staged other ho message hm
      exact ⟨key, speaks_mono hs (names_mono hi hsub)⟩
    · exact hstaged message hm
  awaited other ho := by
    rcases List.mem_or_eq_of_mem_set ho with ho | rfl
    · exact hn.awaited other ho
    · exact hawaited

/-- Names that are in some table already do not disturb anything. -/
theorem functional_of_known (hn : Named log writers)
    (hk : ∀ id key, (id, key) ∈ after.unit.names → Names writers id key) {other : String}
    (h : Names (writers.set index after) id key) (ho : Names (writers.set index after) id other) :
    key = other := by
  have hknown : ∀ {name}, Names (writers.set index after) id name → Names writers id name :=
    fun h => (names_set h).elim (fun h => h) (hk id _)
  exact hn.functional id key other (hknown h) (hknown ho)

/-- A name with an identifier that no unit has yet does not disturb anything either. -/
theorem functional_of_fresh {fresh : Ident} {name : String} (hn : Named log writers)
    (hi : writers[index]? = some writer) (hf : Unused writers fresh)
    (ha : after.unit.names = writer.unit.names ++ [(fresh, name)]) {other : String}
    (h : Names (writers.set index after) id key) (ho : Names (writers.set index after) id other) :
    key = other := by
  have hnone : ∀ {name}, ¬ Names writers fresh name := by
    rintro name ⟨writer, hw, hp⟩
    obtain ⟨stream, hs, he⟩ := List.mem_map.mp hp
    exact hf writer hw stream hs (congrArg Prod.fst he)
  have hcases : ∀ {key}, Names (writers.set index after) id key →
      Names writers id key ∨ id = fresh ∧ key = name := by
    intro key h
    rcases names_set h with h | h
    · exact .inl h
    · rw [ha, List.mem_append, List.mem_singleton, Prod.mk.injEq] at h
      exact h.imp (fun hp => ⟨writer, List.mem_of_getElem? hi, hp⟩) (fun he => he)
  rcases hcases h with hk | ⟨rfl, rfl⟩ <;> rcases hcases ho with hk' | ⟨he, rfl⟩
  · exact hn.functional id key other hk hk'
  · exact absurd (he ▸ hk) hnone
  · exact absurd hk' hnone
  · rfl

/-- The message of a claim takes the lease of its stream and no other lease of a stream. -/
theorem speaks_message (hr : Registered unit claim) {version : Version}
    (hnamed : Names writers claim.stream.id claim.stream.key) :
    Speaks writers claim.stream.key (claim.message version) where
  named := by
    rw [state_message]
    exact hnamed
  takes_iff other := by
    rw [Claim.message, mem_addLeases_ofStream]
    refine ⟨?_, fun he => .inl (he ▸ rfl)⟩
    rintro (h | h | h)
    · simpa [streamLease] using h
    · exact absurd rfl (hr.scope _ h)
    · exact absurd rfl (hr.extras.1 _ h)
  keeps other h := hr.extras.2 _ (mem_removeLeases_ofStream.mp h) rfl

theorem named_of_move (hn : Named log writers) (hi : writers[index]? = some writer)
    (hm : Move (Extras.Avoids streamScope) (Unused writers) log writer after) :
    Named log (writers.set index after) := by
  have hw : writer ∈ writers := List.mem_of_getElem? hi
  have hkept : ∀ {after : Writer}, (∀ pair ∈ writer.unit.names, pair ∈ after.unit.names) →
      ∀ message ∈ writer.unit.staged, ∃ key, Speaks (writers.set index after) key message := by
    intro after hsub message hm
    obtain ⟨key, hs⟩ := hn.staged writer hw message hm
    exact ⟨key, speaks_mono hs (names_mono hi hsub)⟩
  cases hm with
  | @create unit key fresh _ hf =>
    have ha := names_track unit (.unwritten key fresh)
    have hsub : ∀ pair ∈ unit.names, pair ∈ (unit.track (.unwritten key fresh)).2.names :=
      fun pair hp => ha ▸ List.mem_append_left _ hp
    exact named_of_set hn hi hsub (fun _ _ _ => functional_of_fresh hn hi hf ha)
      (hkept hsub) (fun claim hc => by cases hc)
  | @find unit key pointer _ hp =>
    have ha := names_track unit (.found key pointer)
    have hsub : ∀ pair ∈ unit.names, pair ∈ (unit.track (.found key pointer)).2.names :=
      fun pair hp => ha ▸ List.mem_append_left _ hp
    -- the holder of the lease of a key is in some table, under that key
    have hknown : Names writers pointer.id key := by
      obtain ⟨id, hh, rfl⟩ := Option.map_eq_some_iff.mp hp
      exact hn.held key id hh
    have hk : ∀ id name, (id, name) ∈ (unit.track (.found key pointer)).2.names →
        Names writers id name := by
      intro id name h
      rw [ha, List.mem_append, List.mem_singleton] at h
      rcases h with h | h
      · exact ⟨_, hw, h⟩
      · cases h
        exact hknown
    exact named_of_set hn hi hsub (fun _ _ _ => functional_of_known hn hk) (hkept hsub)
      (fun claim hc => by cases hc)
  | @claim unit key claim hk he hfree =>
    have hknown : ∀ id name, (id, name) ∈ unit.names → Names writers id name :=
      fun _ _ h => ⟨_, hw, h⟩
    have hfun : ∀ id key other, Names (writers.set index ⟨unit, some claim⟩) id key →
        Names (writers.set index ⟨unit, some claim⟩) id other → key = other :=
      fun _ _ _ => functional_of_known hn hknown
    refine named_of_set hn hi (fun pair hp => hp) hfun (hkept fun pair hp => hp) ?_
    intro claim hc
    cases hc
    refine ⟨(UnitOfWork.known_eq_ok hk).2, he, fun lease hl => ?_⟩
    obtain ⟨messageKey, rfl⟩ := (hfree lease hl).keyed
    simp [messageLease, streamScope]
  | @stage unit claim =>
    have hr : Registered unit claim := hn.awaited _ hw claim rfl
    have ha := names_stageClaim hr.stream
    have hsub : ∀ pair ∈ unit.names, pair ∈ (unit.stageClaim claim).2.names :=
      fun pair hp => ha ▸ hp
    refine named_of_set hn hi hsub (fun _ _ _ => functional_of_known hn fun _ _ h =>
      ⟨_, hw, ha ▸ h⟩) (fun message hm => ?_) (fun claim hc => by cases hc)
    have hnamed : Names writers claim.stream.id claim.stream.key :=
      ⟨_, hw, List.mem_map_of_mem (List.mem_of_getElem? hr.stream)⟩
    rcases stageClaim_cases unit claim with h | ⟨version, -, h⟩
    · exact hkept hsub message (h ▸ hm)
    · rw [h] at hm
      rcases mem_staged_push.mp hm with hm | rfl
      · exact hkept hsub message hm
      · exact ⟨claim.stream.key, speaks_message hr (names_mono hi hsub hnamed)⟩

/-! ### Commits -/

theorem names_of_streams (hi : writers[index]? = some writer)
    (hs : after.unit.streams = writer.unit.streams) :
    Names (writers.set index after) = Names writers := by
  have ha : after.unit.names = writer.unit.names := congrArg (List.map _) hs
  funext id key
  refine propext ⟨fun h => ?_, names_mono hi fun pair hp => ha ▸ hp⟩
  exact (names_set h).elim (fun h => h) fun hp =>
    ⟨writer, List.mem_of_getElem? hi, ha ▸ hp⟩

/-- An accepted commit leaves the holders of stream leases in the tables: they took the lease with
a message under their own key. -/
theorem held_of_commit (hn : Named log writers)
    (ha : log.apply source Invariant.standard = .ok final)
    (hs : ∀ message ∈ source.messages, ∃ key, Speaks writers key message)
    (hh : final.leaseHolder (streamLease key) = some id) : Names writers id key := by
  rcases leaseHolder_origin ha hh with hb | ⟨message, hm, rfl, hl⟩
  · exact hn.held key id hb
  · obtain ⟨name, hspeaks⟩ := hs message hm
    rw [(hspeaks.takes_iff key).mp hl]
    exact hspeaks.named

theorem committed_of_commit (hn : Named log writers)
    (ha : log.apply source Invariant.standard = .ok final)
    (hs : ∀ message ∈ source.messages, ∃ key, Speaks writers key message)
    (hm : message ∈ final.messages) : ∃ key, Speaks writers key message ∧
      final.leaseHolder (streamLease key) = some message.state.id := by
  have hkeeps : ∀ key, Keeps source.messages (streamLease key) := by
    intro key other ho
    obtain ⟨_, hspeaks⟩ := hs other ho
    exact hspeaks.keeps key
  rw [messages_of_apply ha] at hm
  rcases List.mem_append.mp hm with hm | hm
  · obtain ⟨key, hspeaks, hh⟩ := hn.committed message hm
    exact ⟨key, hspeaks, (leaseHolder_of_kept ha (hkeeps key) hh).1⟩
  · obtain ⟨key, hspeaks⟩ := hs message hm
    exact ⟨key, hspeaks, leaseHolder_of_added ha (hkeeps key) hm ((hspeaks.takes_iff key).mpr rfl)⟩

theorem named_of_commit (hn : Named log writers) (hi : writers[index]? = some ⟨unit, none⟩)
    (hs : source.messages = unit.staged)
    (ha : log.apply source Invariant.standard = .ok final) :
    Named final (writers.set index ⟨{ unit with staged := [] }, none⟩) := by
  have hspeaks : ∀ message ∈ source.messages, ∃ key, Speaks writers key message :=
    hs ▸ hn.staged _ (List.mem_of_getElem? hi)
  have hnames : Names (writers.set index ⟨{ unit with staged := [] }, none⟩) = Names writers :=
    names_of_streams hi rfl
  have hmono : ∀ {id key}, Names writers id key →
      Names (writers.set index ⟨{ unit with staged := [] }, none⟩) id key := fun h => hnames ▸ h
  refine ⟨hnames ▸ hn.functional, fun key id hh => hmono (held_of_commit hn ha hspeaks hh),
    fun message hm => ?_, fun other ho message hm => ?_, fun other ho => ?_⟩
  · obtain ⟨key, hspeak, hh⟩ := committed_of_commit hn ha hspeaks hm
    exact ⟨key, speaks_mono hspeak hmono, hh⟩
  · rcases List.mem_or_eq_of_mem_set ho with ho | rfl
    · obtain ⟨key, hspeak⟩ := hn.staged other ho message hm
      exact ⟨key, speaks_mono hspeak hmono⟩
    · cases hm
  · rcases List.mem_or_eq_of_mem_set ho with ho | rfl
    · exact hn.awaited other ho
    · exact fun claim hc => by cases hc

theorem named_of_join (hn : Named log writers) {repository : Repository} {signature : Signature} :
    Named log (writers ++ [⟨.start repository signature, none⟩]) := by
  have hnames : ∀ {id key}, Names (writers ++ [⟨.start repository signature, none⟩]) id key ↔
      Names writers id key := by
    simp [Names, UnitOfWork.names, UnitOfWork.start]
  have hmono : ∀ {id key}, Names writers id key →
      Names (writers ++ [⟨.start repository signature, none⟩]) id key := hnames.mpr
  refine ⟨fun id key other hk ho => hn.functional id key other (hnames.mp hk) (hnames.mp ho),
    fun key id hh => hmono (hn.held key id hh), fun message hm => ?_,
    fun other ho message hm => ?_, fun other ho => ?_⟩
  · obtain ⟨key, hspeak, hh⟩ := hn.committed message hm
    exact ⟨key, speaks_mono hspeak hmono, hh⟩
  · rcases List.mem_append.mp ho with ho | ho
    · obtain ⟨key, hspeak⟩ := hn.staged other ho message hm
      exact ⟨key, speaks_mono hspeak hmono⟩
    · cases List.mem_singleton.mp ho
      cases hm
  · rcases List.mem_append.mp ho with ho | ho
    · exact hn.awaited other ho
    · cases List.mem_singleton.mp ho
      exact fun claim hc => by cases hc

theorem named_empty : Named .empty [] where
  functional id key other h := by
    obtain ⟨writer, hw, -⟩ := h
    cases hw
  held key id h := by simp [LogState.leaseHolder, LogState.empty] at h
  committed message h := by cases h
  staged writer h := by cases h
  awaited writer h := by cases h

end NamingLemmas

open NamingLemmas

theorem kept_named : KeptByEvents (Extras.Avoids streamScope) Unused Named where
  join _ _ _ _ hn := named_of_join hn
  move _ _ _ _ _ _ hn hi hm := named_of_move hn hi hm
  commit _ _ _ _ _ _ _ hn hi hs ha := named_of_commit hn hi hs ha

/-! ## 2. The result -/

namespace NamingLemmas

variable {log : LogState} {writers : List Writer} {key : String} {message : Message}

theorem mem_chain : message ∈ log.chain key ↔
    message ∈ log.messages ∧ streamLease key ∈ message.addLeases := by
  simp [LogState.chain]

/-- A message of the chain of a key belongs to the entity that is known under the key and holds its
lease. -/
theorem speaks_of_mem_chain (hn : Named log writers) (hm : message ∈ log.chain key) :
    Speaks writers key message ∧ log.leaseHolder (streamLease key) = some message.state.id := by
  obtain ⟨hm, hl⟩ := mem_chain.mp hm
  obtain ⟨name, hspeaks, hh⟩ := hn.committed message hm
  cases (hspeaks.takes_iff key).mp hl
  exact ⟨hspeaks, hh⟩

theorem mem_chain_iff (hn : Named log writers) (hm : message ∈ log.chain key) {other : Message}
    (ho : other ∈ log.messages) : other ∈ log.chain key ↔ other.state.id = message.state.id := by
  obtain ⟨hspeaks, hh⟩ := speaks_of_mem_chain hn hm
  constructor
  · intro hc
    exact Option.some.inj ((speaks_of_mem_chain hn hc).2.symm.trans hh)
  · intro he
    obtain ⟨name, hother, -⟩ := hn.committed other ho
    have hname : name = key :=
      hn.functional _ name key (he ▸ hother.named) hspeaks.named
    exact mem_chain.mpr ⟨ho, (hother.takes_iff key).mpr hname.symm⟩

/-- The chain of a key is the history of its entity. -/
theorem chain_eq_history (hn : Named log writers) (hm : message ∈ log.chain key) :
    (log.chain key).map (·.state.version.toNat) = log.history message.state.id := by
  have hfilter : log.chain key = log.messages.filter (·.state.id = message.state.id) := by
    refine List.filter_congr fun other ho => ?_
    have h := mem_chain_iff hn hm ho
    rw [mem_chain] at h
    exact decide_eq_decide.mpr ⟨fun hl => h.mp ⟨ho, hl⟩, fun he => (h.mpr he).2⟩
  rw [LogState.history, hfilter]

theorem length_chain (hn : Named log writers) (hr : log.Recorded) (hm : message ∈ log.chain key) :
    (log.versionOf message.state.id).toNat = (log.chain key).length := by
  have h := congrArg List.length ((chain_eq_history hn hm).trans (hr.history _))
  simpa using h.symm

theorem chain_versions (hn : Named log writers) (hr : log.Recorded) :
    (log.chain key).map (·.state.version.toNat) = List.range' 1 (log.chain key).length := by
  cases hc : log.chain key with
  | nil => rfl
  | cons message messages =>
    have hm : message ∈ log.chain key := by simp [hc]
    rw [← hc, chain_eq_history hn hm, hr.history, length_chain hn hr hm]

theorem pointerOf?_of_chain_nil (hr : log.Recorded) (hc : log.chain key = []) :
    log.pointerOf? (streamLease key) = none := by
  rw [LogState.pointerOf?, Option.map_eq_none_iff]
  cases hh : log.leaseHolder (streamLease key) with
  | none => rfl
  | some id =>
    obtain ⟨message, hm, -, hl⟩ := hr.taken _ id hh
    have hmem : message ∈ log.chain key := mem_chain.mpr ⟨hm, hl⟩
    rw [hc] at hmem
    cases hmem

theorem pointerOf?_of_mem_chain (hn : Named log writers) (hm : message ∈ log.chain key) :
    log.pointerOf? (streamLease key) =
      some ⟨message.state.id, log.versionOf message.state.id⟩ := by
  rw [LogState.pointerOf?, (speaks_of_mem_chain hn hm).2]
  rfl

/-! ### A new unit of work -/

variable {world : World} {options : SessionOptions} {signature : Signature} {token : Token}
  {unit : UnitOfWork} {storage : Storage}

theorem streamAt?_track (unit : UnitOfWork) (stream : Stream) :
    (unit.track stream).2.streamAt? (unit.track stream).1 = some stream := by
  simp [UnitOfWork.track, UnitOfWork.streamAt?]

theorem find_newUnit (hu : world.newUnit options signature = (unit, storage))
    (hc : world.log.Coherent) (lease : Lease)
    (ht : token.isCancelled storage.spend.now = false) :
    unit.repository.backend.find lease token storage =
      (.ok (world.log.pointerOf? lease), storage.spend) := by
  have hrepo : unit.repository = .bare (.plain world.storage.sessions.length) := by
    cases hu
    rfl
  have hs : storage.sessions[world.storage.sessions.length]? = some ⟨0, options, false⟩ := by
    cases hu
    exact List.getElem?_concat_length
  have hlog : storage.stateOf 0 = world.log := by
    cases hu
    rfl
  have hc' : (storage.stateOf (Session.engine ⟨0, options, false⟩)).Coherent := hlog ▸ hc
  rw [hrepo, find_plain hs hc', hlog]
  simp only [Session.ensureOpen, Bool.false_eq_true, if_false, ht]
  cases world.log.pointerOf? lease <;> rfl

theorem ensureUnknown_newUnit (hu : world.newUnit options signature = (unit, storage)) :
    unit.ensureUnknown key = .ok () := by
  cases hu
  simp [UnitOfWork.ensureUnknown, UnitOfWork.handle?, UnitOfWork.start]

/-- What a new unit of work finds under a key, or starts. -/
theorem lookedUp_loadOrCreate (hu : world.newUnit options signature = (unit, storage))
    (hc : world.log.Coherent) (fresh : Ident)
    (ht : token.isCancelled storage.spend.now = false) :
    lookedUp (unit.loadOrCreate key fresh token storage) =
      match world.log.pointerOf? (streamLease key) with
      | some pointer => .ok (some (.found key pointer))
      | none => .ok (some (.unwritten key fresh)) := by
  simp only [UnitOfWork.loadOrCreate, UnitOfWork.resolveOn, ensureUnknown_newUnit hu,
    find_newUnit hu hc (streamLease key) ht, lookedUp]
  cases world.log.pointerOf? (streamLease key) <;>
    simp only [Option.elim, Except.map, streamAt?_track]

/-- What a new unit of work finds under a key, or does not. -/
theorem lookedUp_load (hu : world.newUnit options signature = (unit, storage))
    (hc : world.log.Coherent) (ht : token.isCancelled storage.spend.now = false) :
    lookedUp (unit.load key token storage) =
      match world.log.pointerOf? (streamLease key) with
      | some pointer => .ok (some (.found key pointer))
      | none => .error (.unknownKey key) := by
  simp only [UnitOfWork.load, UnitOfWork.resolveOn, ensureUnknown_newUnit hu,
    find_newUnit hu hc (streamLease key) ht, lookedUp]
  cases world.log.pointerOf? (streamLease key) <;>
    simp only [Option.elim, Except.map, streamAt?_track]

end NamingLemmas

/-- In every reachable world the committed messages that take the lease of a stream key are those of
one entity, and they have the versions `1, …, n` in log order. A unit of work that starts then finds
that entity at version `n`, or starts a stream if there is no such message. -/
theorem stream_key_names_sequence {world : World}
    (h : world.Reachable (Extras.Avoids streamScope) Unused) (key : String) :
    (∀ message ∈ world.log.chain key, ∀ other ∈ world.log.messages,
      other ∈ world.log.chain key ↔ other.state.id = message.state.id) ∧
    (world.log.chain key).map (·.state.version.toNat) =
      List.range' 1 (world.log.chain key).length ∧
    ∀ options signature unit storage token fresh,
      world.newUnit options signature = (unit, storage) →
      token.isCancelled storage.spend.now = false →
      (∀ message ∈ world.log.chain key, ∃ version : Version,
        version.toNat = (world.log.chain key).length ∧
        lookedUp (unit.loadOrCreate key fresh token storage) =
          .ok (some ⟨key, message.state.id, false, version⟩) ∧
        lookedUp (unit.load key token storage) =
          .ok (some ⟨key, message.state.id, false, version⟩)) ∧
      (world.log.chain key = [] →
        lookedUp (unit.loadOrCreate key fresh token storage) =
          .ok (some ⟨key, fresh, true, .zero⟩) ∧
        lookedUp (unit.load key token storage) = .error (.unknownKey key)) := by
  have hn := world_induction avoids_none named_empty kept_named h
  have hreach := (wired_of_reachable avoids_none h).log
  have hr := recorded_of_reachable hreach
  have hc := coherent_of_reachable hreach
  refine ⟨fun message hm other ho => mem_chain_iff hn hm ho, chain_versions hn hr,
    fun options signature unit storage token fresh hu ht => ⟨fun message hm => ?_, fun hnil => ?_⟩⟩
  · refine ⟨world.log.versionOf message.state.id, length_chain hn hr hm, ?_, ?_⟩
    · rw [lookedUp_loadOrCreate hu hc fresh ht, pointerOf?_of_mem_chain hn hm]
      rfl
    · rw [lookedUp_load hu hc ht, pointerOf?_of_mem_chain hn hm]
      rfl
  · constructor
    · rw [lookedUp_loadOrCreate hu hc fresh ht, pointerOf?_of_chain_nil hr hnil]
      rfl
    · rw [lookedUp_load hu hc ht, pointerOf?_of_chain_nil hr hnil]

/-- Two units of work start a stream of one key and stage two messages each. One of them commits,
the other one cannot. A third one finds the stream and adds a message. -/
def exChainEvents : List Event :=
  let delta : Delta := ⟨.native "note", .ok .null, none⟩
  [.join .writer (.ok default), .join .writer (.ok default), .join .writer (.ok default),
    .act 0 (.create "orders" (.ofNat 1)), .act 1 (.loadOrCreate "orders" (.ofNat 2) .never),
    .act 0 (.append "orders" delta), .act 1 (.append "orders" delta),
    .act 0 (.append "orders" delta), .act 1 (.append "orders" delta),
    .act 0 (.commit default .never), .act 1 (.commit default .never),
    .act 2 (.load "orders" .never), .act 2 (.append "orders" delta),
    .act 2 (.commit default .never)]

/-- The chain has the messages of the first and the third unit, and a fourth one finds the entity of
the first at version three. -/
theorem stream_key_names_sequence_race :
    World.start.Permits (Extras.Avoids streamScope) Unused exChainEvents ∧
    ((World.start.run exChainEvents).log.chain "orders").map (·.state.version.toNat) = [1, 2, 3] ∧
    ∃ version : Version, version.toNat = 3 ∧
      lookedUp (((World.start.run exChainEvents).newUnit .writer (.ok default)).1.load "orders"
          .never ((World.start.run exChainEvents).newUnit .writer (.ok default)).2) =
        .ok (some ⟨"orders", .ofNat 1, false, version⟩) := by
  have hp : World.start.Permits (Extras.Avoids streamScope) Unused exChainEvents := by
    refine ⟨trivial, trivial, trivial, ?_, ?_, trivial, trivial, trivial, trivial, trivial,
      trivial, trivial, trivial, trivial, trivial⟩
    · show Unused _ (.ofNat 1)
      decide
    · show Unused _ (.ofNat 2)
      decide
  have hr := reachable_run .start hp
  obtain ⟨-, hv, hlook⟩ := stream_key_names_sequence hr "orders"
  have hlen : ((World.start.run exChainEvents).log.chain "orders").length = 3 := by decide
  have hm : ∃ message ∈ (World.start.run exChainEvents).log.chain "orders",
      message.state.id = .ofNat 1 := by decide
  obtain ⟨message, hm, he⟩ := hm
  obtain ⟨version, hn, -, hload⟩ :=
    (hlook .writer (.ok default) _ _ .never (.ofNat 3) rfl (by decide)).1 message hm
  exact ⟨hp, hlen ▸ hv, version, hlen ▸ hn, he ▸ hload⟩

end LeaseLog
