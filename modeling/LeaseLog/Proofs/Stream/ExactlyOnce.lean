import LeaseLog.Proofs.Stream.Basic
import LeaseLog.Proofs.Stream.World

/-!
# Keyed messages are committed once

The look for a message key and the commit are two steps, and the engine lets an entity take a lease
again that it holds already. Nevertheless, however units of work interleave, a message key of a
stream is committed at most once.

What rules a second commit out is the version check, for writers of one entity, and the rule of the
leases, for writers of two. The invariant behind the first half is `Buffered.late`: once the entity
of a staged message holds a message lease that the message takes, a commit of the buffer comes too
late, as it writes a version that is stored already.

Results:
1. `kept_once`: the invariant is kept by everything that can happen in a world.
2. `keyed_append_once`: in every reachable world at most one committed message has a given key.
-/

namespace LeaseLog

/-! ## Definitions -/

/-- The scope of the leases of keyed messages. -/
def keyedScope : String := "stream-message"

/-- A keyed lease was taken at most once, and whoever took it still holds it. -/
structure TakenOnce (log : LogState) : Prop where
  once : ∀ lease, lease.scope = keyedScope → takes lease log.messages ≤ 1
  held : ∀ message ∈ log.messages, ∀ lease ∈ message.addLeases, lease.scope = keyedScope →
    log.leaseHolder lease = some message.state.id

/-- The versions of the streams and of the staged messages of a unit of work follow on the stored
ones, or on older ones. -/
structure Numbered (log : LogState) (unit : UnitOfWork) : Prop where
  tracked : ∀ stream ∈ unit.streams,
    stream.version.toNat ≤ (log.versionOf stream.id).toNat ∨
      ∃ message ∈ unit.staged, message.state.id = stream.id ∧
        stream.version.toNat ≤ message.state.version.toNat
  anchored : ∀ message ∈ unit.staged, ∃ first ∈ unit.staged,
    first.state.id = message.state.id ∧
      first.state.version.toNat ≤ (log.versionOf message.state.id).toNat + 1

/-- How the streams and the staged messages of a unit of work relate to the log. -/
structure Buffered (log : LogState) (unit : UnitOfWork) : Prop where
  /-- The version of a stream is stored or staged. -/
  tracked : ∀ stream ∈ unit.streams,
    stream.version.toNat ≤ (log.versionOf stream.id).toNat ∨
      ∃ message ∈ unit.staged, message.state.id = stream.id ∧
        stream.version.toNat ≤ message.state.version.toNat
  /-- Among the staged messages of an entity, one writes the next version or an older one. -/
  anchored : ∀ message ∈ unit.staged, ∃ first ∈ unit.staged,
    first.state.id = message.state.id ∧
      first.state.version.toNat ≤ (log.versionOf message.state.id).toNat + 1
  keeps : ∀ lease, lease.scope = keyedScope → Keeps unit.staged lease
  once : ∀ lease, lease.scope = keyedScope → takes lease unit.staged ≤ 1
  late : ∀ message ∈ unit.staged, ∀ lease ∈ message.addLeases, lease.scope = keyedScope →
    log.leaseHolder lease = some message.state.id → Stale log unit.staged

/-- How a claim that waits relates to its unit of work and to the log. -/
structure Awaited (log : LogState) (unit : UnitOfWork) (claim : Claim) : Prop where
  stream : claim.stream ∈ unit.streams
  extras : claim.extras.Avoids keyedScope
  scope : ∀ lease, claim.keyLease = some lease → lease.scope = keyedScope
  unstaged : ∀ lease, claim.keyLease = some lease → takes lease unit.staged = 0
  /-- As `Buffered.late`, for the message that is about to be staged. -/
  late : ∀ lease, claim.keyLease = some lease → log.leaseHolder lease = some claim.stream.id →
    Stale log unit.staged ∨
      claim.stream.version.toNat < (log.versionOf claim.stream.id).toNat

/-- The invariant of one unit of work. -/
structure Sound (log : LogState) (writer : Writer) : Prop where
  buffered : Buffered log writer.unit
  awaited : ∀ claim, writer.claim = some claim → Awaited log writer.unit claim

/-- The invariant of a world. -/
structure Once (log : LogState) (writers : List Writer) : Prop where
  taken : TakenOnce log
  sound : ∀ writer ∈ writers, Sound log writer

/-! ## 1. The invariant -/

theorem Buffered.numbered {log : LogState} {unit : UnitOfWork} (hb : Buffered log unit) :
    Numbered log unit :=
  ⟨hb.tracked, hb.anchored⟩

namespace OnceLemmas

variable {log final : LogState} {source : Source} {unit : UnitOfWork} {claim : Claim}
  {writer after : Writer} {messages : List Message} {freshOk : Ident → Prop}

/-! ### A commit of another unit -/

/-- If an entity has come to hold a lease, it has a message in the source, so its version grew. -/
theorem versionOf_lt_of_leaseHolder (ha : log.apply source Invariant.standard = .ok final)
    {lease : Lease} {id : Ident} (hl : final.leaseHolder lease = some id) :
    log.leaseHolder lease = some id ∨ (log.versionOf id).toNat < (final.versionOf id).toNat := by
  rcases leaseHolder_origin ha hl with hb | ⟨message, hm, rfl, -⟩
  · exact .inl hb
  · exact .inr (Nat.lt_of_lt_of_le (versionOf_lt_of_mem ha hm) (le_versionOf_of_mem ha hm))

/-- When the version of an entity with a staged message has grown, the buffer is stale. -/
theorem stale_of_grown (hn : Numbered log unit) {message : Message} (hm : message ∈ unit.staged)
    (hv : (log.versionOf message.state.id).toNat < (final.versionOf message.state.id).toNat) :
    Stale final unit.staged := by
  obtain ⟨first, hf, he, hle⟩ := hn.anchored message hm
  exact ⟨first, hf, by rw [he]; omega⟩

theorem numbered_of_apply (hn : Numbered log unit)
    (ha : log.apply source Invariant.standard = .ok final) : Numbered final unit where
  tracked stream hs := by
    rcases hn.tracked stream hs with hle | hm
    · exact .inl (Nat.le_trans hle (versionOf_le ha))
    · exact .inr hm
  anchored message hm := by
    obtain ⟨first, hf, he, hle⟩ := hn.anchored message hm
    exact ⟨first, hf, he, Nat.le_trans hle (Nat.succ_le_succ (versionOf_le ha))⟩

theorem buffered_of_apply (hb : Buffered log unit)
    (ha : log.apply source Invariant.standard = .ok final) : Buffered final unit where
  tracked := (numbered_of_apply hb.numbered ha).tracked
  anchored := (numbered_of_apply hb.numbered ha).anchored
  keeps := hb.keeps
  once := hb.once
  late message hm lease hl hscope hh := by
    rcases versionOf_lt_of_leaseHolder ha hh with hb' | hv
    · exact (hb.late message hm lease hl hscope hb').mono ha
    · exact stale_of_grown hb.numbered hm hv

theorem awaited_of_apply (hb : Buffered log unit) (hw : Awaited log unit claim)
    (ha : log.apply source Invariant.standard = .ok final) : Awaited final unit claim where
  stream := hw.stream
  extras := hw.extras
  scope := hw.scope
  unstaged := hw.unstaged
  late lease hk hh := by
    rcases versionOf_lt_of_leaseHolder ha hh with hb' | hv
    · rcases hw.late lease hk hb' with hs | hlt
      · exact .inl (hs.mono ha)
      · exact .inr (Nat.lt_of_lt_of_le hlt (versionOf_le ha))
    · -- somebody else has written to the stream of the claim since the unit looked it up
      rcases hb.tracked claim.stream hw.stream with hle | ⟨message, hm, he, -⟩
      · exact .inr (Nat.lt_of_le_of_lt hle hv)
      · rw [← he] at hv
        exact .inl (stale_of_grown hb.numbered hm hv)

theorem sound_of_apply (hs : Sound log writer)
    (ha : log.apply source Invariant.standard = .ok final) : Sound final writer :=
  ⟨buffered_of_apply hs.buffered ha, fun claim hc =>
    awaited_of_apply hs.buffered (hs.awaited claim hc) ha⟩

/-! ### The commit of a unit -/

theorem numbered_of_commit (hn : Numbered log unit)
    (ha : log.apply source Invariant.standard = .ok final) (hm : source.messages = unit.staged) :
    Numbered final { unit with staged := [] } where
  tracked stream hs := by
    rcases hn.tracked stream hs with hle | ⟨message, hstaged, he, hle⟩
    · exact .inl (Nat.le_trans hle (versionOf_le ha))
    · have hv := le_versionOf_of_mem ha (hm ▸ hstaged)
      exact .inl (Nat.le_trans hle (he ▸ hv))
  anchored message h := by cases h

theorem buffered_of_commit (hb : Buffered log unit)
    (ha : log.apply source Invariant.standard = .ok final) (hm : source.messages = unit.staged) :
    Buffered final { unit with staged := [] } where
  tracked := (numbered_of_commit hb.numbered ha hm).tracked
  anchored := (numbered_of_commit hb.numbered ha hm).anchored
  keeps lease _ message h := by cases h
  once lease _ := Nat.zero_le _
  late message h := by cases h

/-- If the commit of a buffer is accepted, nobody held a keyed lease that the buffer takes: the
entity of the message would make the buffer stale, and every other one breaks the rule of the
leases. -/
theorem leaseHolder_of_commit (hb : Buffered log unit)
    (ha : log.apply source Invariant.standard = .ok final) (hs : source.messages = unit.staged)
    {message : Message} (hm : message ∈ source.messages) {lease : Lease}
    (hl : lease ∈ message.addLeases) (hscope : lease.scope = keyedScope) :
    log.leaseHolder lease = none := by
  cases hh : log.leaseHolder lease with
  | none => rfl
  | some holder =>
    have hkeeps : Keeps source.messages lease := hs ▸ hb.keeps lease hscope
    have hid : message.state.id = holder := (leaseHolder_of_kept ha hkeeps hh).2 message hm hl
    have hstale := hb.late message (hs ▸ hm) lease hl hscope (hid ▸ hh)
    exact absurd (hs ▸ hstale) (not_stale_of_apply ha)

theorem taken_of_commit (ht : TakenOnce log) (hb : Buffered log unit)
    (ha : log.apply source Invariant.standard = .ok final) (hs : source.messages = unit.staged) :
    TakenOnce final where
  once lease hscope := by
    rw [messages_of_apply ha, takes_append]
    by_cases hz : takes lease source.messages = 0
    · rw [hz]
      exact ht.once lease hscope
    · obtain ⟨message, hm, hl⟩ : ∃ message ∈ source.messages, lease ∈ message.addLeases := by
        simpa [takes_eq_zero] using hz
      -- the source takes the lease, so nobody held it, so no committed message took it
      have hnone := leaseHolder_of_commit hb ha hs hm hl hscope
      have hzero : takes lease log.messages = 0 := by
        refine takes_eq_zero.mpr fun other ho hl' => ?_
        rw [ht.held other ho lease hl' hscope] at hnone
        cases hnone
      rw [hzero, Nat.zero_add, hs]
      exact hb.once lease hscope
  held message hm lease hl hscope := by
    have hkeeps : Keeps source.messages lease := hs ▸ hb.keeps lease hscope
    rw [messages_of_apply ha] at hm
    rcases List.mem_append.mp hm with hm | hm
    · exact (leaseHolder_of_kept ha hkeeps (ht.held message hm lease hl hscope)).1
    · exact leaseHolder_of_added ha hkeeps hm hl

/-! ### Moves of a unit -/

theorem numbered_track (hn : Numbered log unit) {stream : Stream}
    (hv : stream.version.toNat ≤ (log.versionOf stream.id).toNat) :
    Numbered log (unit.track stream).2 where
  tracked other ho := by
    rcases List.mem_append.mp ho with ho | ho
    · exact hn.tracked other ho
    · cases List.mem_singleton.mp ho
      exact .inl hv
  anchored := hn.anchored

theorem buffered_track (hb : Buffered log unit) {stream : Stream}
    (hv : stream.version.toNat ≤ (log.versionOf stream.id).toNat) :
    Buffered log (unit.track stream).2 where
  tracked := (numbered_track hb.numbered hv).tracked
  anchored := (numbered_track hb.numbered hv).anchored
  keeps := hb.keeps
  once := hb.once
  late := hb.late

theorem awaited_of_known {key : String} (hk : unit.known key = .ok (claim.handle, claim.stream))
    (he : claim.extras.Avoids keyedScope)
    (hfree : ∀ lease, claim.keyLease = some lease → Vacant log unit key lease) :
    Awaited log unit claim where
  stream := List.mem_of_getElem? (UnitOfWork.known_eq_ok hk).2
  extras := he
  scope lease h := by
    obtain ⟨messageKey, rfl⟩ := (hfree lease h).keyed
    rfl
  unstaged lease h := by
    simpa [UnitOfWork.isStaged, takes_eq_zero] using (hfree lease h).unstaged
  late lease h hh := by
    rw [(hfree lease h).free] at hh
    cases hh

/-- The keyed leases that the message of a claim takes: the one of its key. -/
theorem keyed_of_mem_addLeases (hw : Awaited log unit claim) {version : Version} {lease : Lease}
    (hscope : lease.scope = keyedScope) (hl : lease ∈ (claim.message version).addLeases) :
    claim.keyLease = some lease := by
  rcases mem_addLeases_ofStream.mp hl with rfl | hk | he
  · simp [streamLease, keyedScope] at hscope
  · exact hk
  · exact absurd hscope (hw.extras.1 lease he)

theorem stale_push {version : Version} (h : Stale log unit.staged) :
    Stale log (unit.push claim version).staged := by
  obtain ⟨message, hm, hle⟩ := h
  exact ⟨message, mem_staged_push.mpr (.inl hm), hle⟩

theorem tracked_push (hn : Numbered log unit) {version : Version} {stream : Stream}
    (hs : stream ∈ (unit.push claim version).streams) :
    stream.version.toNat ≤ (log.versionOf stream.id).toNat ∨
      ∃ message ∈ (unit.push claim version).staged, message.state.id = stream.id ∧
        stream.version.toNat ≤ message.state.version.toNat := by
  rcases mem_streams_push hs with hs | rfl
  · rcases hn.tracked stream hs with hle | ⟨message, hm, hle⟩
    · exact .inl hle
    · exact .inr ⟨message, mem_staged_push.mpr (.inl hm), hle⟩
  · exact .inr ⟨claim.message version, mem_staged_push.mpr (.inr rfl), by simp⟩

/-- The new message is the first one of its entity, or the first one was staged before. -/
theorem anchored_push (hn : Numbered log unit) (hs : claim.stream ∈ unit.streams)
    {version : Version} (hv : version.toNat = claim.stream.version.toNat + 1) {message : Message}
    (hm : message ∈ (unit.push claim version).staged) :
    ∃ first ∈ (unit.push claim version).staged, first.state.id = message.state.id ∧
      first.state.version.toNat ≤ (log.versionOf message.state.id).toNat + 1 := by
  have hstaged : ∀ {id}, (∃ message ∈ unit.staged, message.state.id = id) →
      ∃ first ∈ (unit.push claim version).staged, first.state.id = id ∧
        first.state.version.toNat ≤ (log.versionOf id).toNat + 1 := by
    rintro _ ⟨message, hm, rfl⟩
    obtain ⟨first, hf, he⟩ := hn.anchored message hm
    exact ⟨first, mem_staged_push.mpr (.inl hf), he⟩
  rcases mem_staged_push.mp hm with hm | rfl
  · exact hstaged ⟨message, hm, rfl⟩
  · rcases hn.tracked claim.stream hs with hle | ⟨message, hm', he, -⟩
    · refine ⟨claim.message version, hm, rfl, ?_⟩
      simp only [state_message, hv]
      exact Nat.succ_le_succ hle
    · rw [state_message]
      exact hstaged ⟨message, hm', he⟩

theorem numbered_stage (hn : Numbered log unit) (hs : claim.stream ∈ unit.streams) :
    Numbered log (unit.stageClaim claim).2 := by
  rcases stageClaim_cases unit claim with h | ⟨version, hv, h⟩
  · exact h.symm ▸ hn
  · rw [h]
    exact ⟨fun stream hm => tracked_push hn hm, fun message hm => anchored_push hn hs hv hm⟩

theorem keeps_push (hb : Buffered log unit) (hw : Awaited log unit claim) {version : Version}
    {lease : Lease} (hscope : lease.scope = keyedScope) :
    Keeps (unit.push claim version).staged lease := by
  intro message hm
  rcases mem_staged_push.mp hm with hm | rfl
  · exact hb.keeps lease hscope message hm
  · exact fun hr => hw.extras.2 lease (mem_removeLeases_ofStream.mp hr) hscope

theorem once_push (hb : Buffered log unit) (hw : Awaited log unit claim) {version : Version}
    {lease : Lease} (hscope : lease.scope = keyedScope) :
    takes lease (unit.push claim version).staged ≤ 1 := by
  rw [UnitOfWork.push, takes_append]
  by_cases hk : claim.keyLease = some lease
  · rw [hw.unstaged lease hk, Nat.zero_add]
    exact takes_singleton_le
  · have hz : takes lease [claim.message version] = 0 := by
      refine takes_eq_zero.mpr fun message hm hl => ?_
      cases List.mem_singleton.mp hm
      exact hk (keyed_of_mem_addLeases hw hscope hl)
    rw [hz]
    exact hb.once lease hscope

theorem late_push (hb : Buffered log unit) (hw : Awaited log unit claim) {version : Version}
    (hv : version.toNat = claim.stream.version.toNat + 1) {message : Message}
    (hm : message ∈ (unit.push claim version).staged) {lease : Lease}
    (hl : lease ∈ message.addLeases) (hscope : lease.scope = keyedScope)
    (hh : log.leaseHolder lease = some message.state.id) :
    Stale log (unit.push claim version).staged := by
  rcases mem_staged_push.mp hm with hm | rfl
  · exact stale_push (hb.late message hm lease hl hscope hh)
  · rw [state_message] at hh
    rcases hw.late lease (keyed_of_mem_addLeases hw hscope hl) hh with hs | hlt
    · exact stale_push hs
    · refine ⟨claim.message version, hm, ?_⟩
      rw [state_message]
      exact hv ▸ hlt

theorem buffered_stage (hb : Buffered log unit) (hw : Awaited log unit claim) :
    Buffered log (unit.stageClaim claim).2 := by
  rcases stageClaim_cases unit claim with h | ⟨version, hv, h⟩
  · exact h.symm ▸ hb
  · rw [h]
    exact
      { tracked := fun stream hs => tracked_push hb.numbered hs
        anchored := fun message hm => anchored_push hb.numbered hw.stream hv hm
        keeps := fun lease hscope => keeps_push hb hw hscope
        once := fun lease hscope => once_push hb hw hscope
        late := fun message hm lease hl hscope hh => late_push hb hw hv hm hl hscope hh }

theorem sound_of_move (hs : Sound log writer)
    (hm : Move (Extras.Avoids keyedScope) freshOk log writer after) : Sound log after := by
  cases hm with
  | create =>
    exact ⟨buffered_track hs.buffered (Nat.zero_le _), fun claim hc => by cases hc⟩
  | @find unit key pointer _ hp =>
    refine ⟨buffered_track hs.buffered ?_, fun claim hc => by cases hc⟩
    obtain ⟨id, -, rfl⟩ := Option.map_eq_some_iff.mp hp
    exact Nat.le_refl _
  | claim hk he hfree =>
    refine ⟨hs.buffered, fun claim hc => ?_⟩
    cases hc
    exact awaited_of_known hk he hfree
  | stage =>
    exact ⟨buffered_stage hs.buffered (hs.awaited _ rfl), fun claim hc => by cases hc⟩

theorem numbered_start {repository : Repository} {signature : Signature} :
    Numbered log (.start repository signature) where
  tracked stream h := by cases h
  anchored message h := by cases h

theorem sound_start {repository : Repository} {signature : Signature} :
    Sound log ⟨.start repository signature, none⟩ where
  buffered :=
    { tracked := numbered_start.tracked
      anchored := numbered_start.anchored
      keeps := fun lease _ message h => by cases h
      once := fun lease _ => Nat.zero_le _
      late := fun message h => by cases h }
  awaited claim h := by cases h

theorem once_empty : Once .empty [] :=
  ⟨⟨fun lease _ => Nat.zero_le _, fun message h => by cases h⟩, fun writer h => by cases h⟩

end OnceLemmas

open OnceLemmas

theorem kept_once {freshOk : List Writer → Ident → Prop} :
    KeptByEvents (Extras.Avoids keyedScope) freshOk Once where
  join log writers repository signature h := by
    refine ⟨h.taken, fun writer hw => ?_⟩
    rcases List.mem_append.mp hw with hw | hw
    · exact h.sound writer hw
    · cases List.mem_singleton.mp hw
      exact sound_start
  move log writers index writer after _ h hi hm := by
    refine ⟨h.taken, fun other ho => ?_⟩
    rcases List.mem_or_eq_of_mem_set ho with ho | rfl
    · exact h.sound other ho
    · exact sound_of_move (h.sound writer (List.mem_of_getElem? hi)) hm
  commit log writers index unit source final _ h hi hs ha := by
    have hb : Buffered log unit := (h.sound _ (List.mem_of_getElem? hi)).buffered
    refine ⟨taken_of_commit h.taken hb ha hs, fun other ho => ?_⟩
    rcases List.mem_or_eq_of_mem_set ho with ho | rfl
    · exact sound_of_apply (h.sound other ho) ha
    · exact ⟨buffered_of_commit hb ha hs, fun claim hc => by cases hc⟩

/-! ## 2. The result -/

/-- However units of work interleave, at most one committed message takes the lease of a message
key, as long as no extras touch such leases. -/
theorem keyed_append_once {freshOk : List Writer → Ident → Prop} {world : World}
    (h : world.Reachable (Extras.Avoids keyedScope) freshOk) (key messageKey : String) :
    takes (messageLease key messageKey) world.log.messages ≤ 1 := by
  exact (world_induction avoids_none once_empty kept_once h).taken.once _ rfl

/-- Two units of work create a stream of one key, find that nobody has the message key, stage their
message, and commit. -/
def exRaceEvents : List Event :=
  let delta : Delta := ⟨.native "note", .ok .null, some "first"⟩
  [.join .writer (.ok default), .join .writer (.ok default),
    .act 0 (.create "orders" (.ofNat 1)), .act 1 (.create "orders" (.ofNat 2)),
    .act 0 (.prepare "orders" delta .none .never), .act 1 (.prepare "orders" delta .none .never),
    .act 0 .stage, .act 1 .stage, .act 0 (.commit default .never), .act 1 (.commit default .never)]

/-- The race commits the message key, and it commits it once. -/
theorem keyed_append_once_race :
    World.start.Permits (Extras.Avoids keyedScope) (fun _ _ => True) exRaceEvents ∧
    takes (messageLease "orders" "first") (World.start.run exRaceEvents).log.messages = 1 := by
  have hp : World.start.Permits (Extras.Avoids keyedScope) (fun _ _ => True) exRaceEvents :=
    ⟨trivial, trivial, trivial, trivial, avoids_none, avoids_none, trivial, trivial, trivial,
      trivial, trivial⟩
  have hr := reachable_run .start hp
  refine ⟨hp, Nat.le_antisymm (keyed_append_once hr "orders" "first") ?_⟩
  decide

end LeaseLog
