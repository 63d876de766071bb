import LeaseLog.Proofs.State.Replay

/-!
# What a replay does not look at

A replay reads of a message which state it writes and which leases and tags it touches. A log whose
messages are changed in nothing but their payloads is accepted like the original one, and has the
same versions and the same holders of leases.

Results:
1. `fitAll_map`: whether messages fit does not depend on their payloads.
2. `replay_map`: a log and its changed copy are both accepted or both refused.
3. `sameMarks_of_replay`: the states that they replay to agree on versions and holders.
-/

namespace LeaseLog

/-! ## Definitions -/

/-- A change of messages that leaves alone what a log is read by. -/
structure KeepsMarks (change : Message → Message) : Prop where
  state : ∀ message, (change message).state = message.state
  addLeases : ∀ message, (change message).addLeases = message.addLeases
  removeLeases : ∀ message, (change message).removeLeases = message.removeLeases

/-- Two states in which every entity is at the same version and every lease has the same holder. -/
structure LogState.SameMarks (left right : LogState) : Prop where
  versionOf : ∀ id, left.versionOf id = right.versionOf id
  leaseHolder : ∀ lease, left.leaseHolder lease = right.leaseHolder lease

theorem Version.eq_of_toNat {a b : Version} (h : a.toNat = b.toNat) : a = b := by
  cases a
  cases b
  simp_all

/-! ## 1. Messages -/

namespace MarksLemmas

variable {change : Message → Message}

theorem writes_map (hk : KeepsMarks change) (messages : List Message) (id : Ident) :
    writes (messages.map change) id = writes messages id := by
  simp only [writes, List.countP_map, Function.comp_def, hk.state]

theorem lastLeases_map (hk : KeepsMarks change) (messages : List Message) (id : Ident)
    (lease : Lease) : LastLeases (messages.map change) id lease ↔ LastLeases messages id lease := by
  simp only [LastLeases, LastAdds, latestMention, List.filter_map, List.getLast?_map,
    Function.comp_def, hk.state, hk.addLeases, hk.removeLeases, Option.mem_def,
    Option.map_eq_some_iff]
  constructor
  · rintro ⟨-, ⟨message, hm, rfl⟩, hl⟩
    exact ⟨message, hm, (hk.addLeases message) ▸ hl⟩
  · rintro ⟨message, hm, hl⟩
    exact ⟨change message, ⟨message, hm, rfl⟩, (hk.addLeases message).symm ▸ hl⟩

theorem fits_map (hk : KeepsMarks change) (past : List Message) (message : Message) :
    Fits (past.map change) (change message) ↔ Fits past message := by
  constructor
  · rintro ⟨hv, hl⟩
    rw [hk.state, writes_map hk] at hv
    refine ⟨hv, fun lease hm other hne ho => ?_⟩
    refine hl lease (by rwa [hk.addLeases]) other (by rwa [hk.state]) ?_
    exact (lastLeases_map hk past other lease).mpr ho
  · rintro ⟨hv, hl⟩
    refine ⟨by rw [hk.state, writes_map hk, hv], fun lease hm other hne ho => ?_⟩
    rw [hk.addLeases] at hm
    rw [hk.state] at hne
    exact hl lease hm other hne ((lastLeases_map hk past other lease).mp ho)

theorem flatMap_messages {rewrite : Source → Source}
    (hr : ∀ source, (rewrite source).messages = source.messages.map change)
    (sources : List Source) :
    (sources.map rewrite).flatMap Source.messages =
      (sources.flatMap Source.messages).map change := by
  simp only [List.flatMap_map, hr, List.map_flatMap]

end MarksLemmas

open MarksLemmas

/-- Whether messages fit one after another does not depend on their payloads. -/
theorem fitAll_map {change : Message → Message} (hk : KeepsMarks change) :
    ∀ {messages past : List Message},
      FitAll (past.map change) (messages.map change) ↔ FitAll past messages := by
  intro messages
  induction messages with
  | nil =>
    intro past
    exact iff_of_true fitAll_nil fitAll_nil
  | cons message messages ih =>
    intro past
    rw [List.map_cons, fitAll_cons, fitAll_cons, fits_map hk]
    have hconcat : past.map change ++ [change message] = (past ++ [message]).map change := by simp
    rw [hconcat, ih]

/-! ## 2. Logs -/

section

variable {change : Message → Message} {rewrite : Source → Source} {sources : List Source}
  {state state' : LogState}

/-- A log and a copy with other payloads are both accepted or both refused. -/
theorem replay_map (hk : KeepsMarks change)
    (hr : ∀ source, (rewrite source).messages = source.messages.map change) :
    (∃ state, LogState.replay (sources.map rewrite) Invariant.standard = .ok state) ↔
      ∃ state, LogState.replay sources Invariant.standard = .ok state := by
  rw [(replay_accepts_iff_fits _).1, (replay_accepts_iff_fits _).1, flatMap_messages hr]
  exact @fitAll_map change hk _ []

/-! ## 3. States -/

theorem messages_of_replay (h : LogState.replay sources Invariant.standard = .ok state) :
    state.messages = sources.flatMap Source.messages := by
  rw [LogState.messages, ReplayLemmas.sources_of_replay h]

/-- A log and a copy with other payloads lead to the same versions and the same holders. -/
theorem sameMarks_of_replay (hk : KeepsMarks change)
    (hr : ∀ source, (rewrite source).messages = source.messages.map change)
    (h : LogState.replay sources Invariant.standard = .ok state)
    (h' : LogState.replay (sources.map rewrite) Invariant.standard = .ok state') :
    state'.SameMarks state := by
  have hreads := reads_of_reachable (ReplayLemmas.reachable_of_replay h)
  have hreads' := reads_of_reachable (ReplayLemmas.reachable_of_replay h')
  have hmessages : state'.messages = state.messages.map change := by
    rw [messages_of_replay h', messages_of_replay h, flatMap_messages hr]
  constructor
  · intro id
    refine Version.eq_of_toNat ?_
    rw [hreads'.version, hreads.version, hmessages, writes_map hk]
  · intro lease
    refine Option.ext fun id => ?_
    rw [hreads'.holder, hreads.holder, hmessages, lastLeases_map hk]

end

end LeaseLog
