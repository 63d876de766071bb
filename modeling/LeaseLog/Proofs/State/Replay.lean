import LeaseLog.Proofs.State.History

/-!
# Replaying a log

A replay walks through the sources of a log with an index, sets per entity and an early exit. What
it accepts and what it derives can be read off the messages alone.

Results:
1. `replay_accepts_iff_fits`: a log is accepted if and only if each of its messages fits behind the
   ones before it; otherwise the first message that does not fit decides about the error.
2. `replay_reads_last_mentions`: what an accepted log derives is counted and looked up in its
   messages and sources.
-/

namespace LeaseLog

/-! ## Definitions -/

/-- The rule that a message breaks which does not fit. Versions are checked before leases. -/
def brokenRule (past : List Message) (message : Message) : String :=
  if message.state.version.toNat = 1 + writes past message.state.id then "unique-lease"
  else "contiguous-version"

/-- The first message of a log that does not fit, with its source and all messages before it. -/
structure FirstOffence (sources : List Source) (source : Source) (past : List Message)
    (message : Message) : Prop where
  place : ∃ before after earlier rest, sources = before ++ source :: after ∧
    source.messages = earlier ++ message :: rest ∧
    past = before.flatMap Source.messages ++ earlier
  fits : FitAll [] past
  misfit : ¬ Fits past message

/-- The last source with a message of an entity. -/
def lastWriter (sources : List Source) (id : Ident) : Option Source :=
  (sources.filter fun source => 0 < writes source.messages id).getLast?

/-- Every entity has the identifier and the time of the last source that wrote it. -/
def LogState.Stamped (state : LogState) : Prop :=
  ∀ id entity, state.entity? id = some entity → ∃ source ∈ lastWriter state.sources id,
    entity.lastSource = source.id ∧ entity.updatedAt = source.timestamp

/-! ## 1. What a replay accepts -/

namespace ReplayLemmas

open AcceptedLemmas

variable {past : List Message} {state : LogState} {source : Source}

/-- Which rule the standard rules name when they refuse a message. -/
theorem check_standard_error {view : StateView} {message : Message} {violation : Violation}
    (h : Invariant.check view message Invariant.standard = .error violation) :
    violation.invariant =
      if message.state.version.toNat = (view.versionOf message.state.id).toNat + 1 then
        "unique-lease"
      else "contiguous-version" := by
  simp only [Invariant.standard, Invariant.check] at h
  split at h
  · next reason hv =>
    have hne : message.state.version.toNat ≠ (view.versionOf message.state.id).toNat + 1 := by
      intro he
      rw [contiguousVersion_objection.mpr he] at hv
      cases hv
    cases h
    rw [if_neg hne]
    rfl
  · next hv =>
    split at h
    · cases h
      rw [if_pos (contiguousVersion_objection.mp hv)]
      rfl
    · cases h

theorem brokenRule_of_check (hr : Reads past state) {message : Message} {violation : Violation}
    (h : Invariant.check state.view message Invariant.standard = .error violation) :
    ¬ Fits past message ∧ violation.invariant = brokenRule past message := by
  refine ⟨fun hf => ?_, ?_⟩
  · rw [check_standard_iff.mpr ((admissible_iff_fits hr).mpr hf)] at h
    cases h
  · rw [check_standard_error h, brokenRule, ← hr.version, Nat.add_comm 1]
    rfl

theorem fitAll_of_writeAll {messages : List Message} :
    ∀ {past : List Message} {state written : LogState}, Reads past state → state.Coherent →
      LogState.writeAll Invariant.standard source state messages = .ok written →
      FitAll past messages := by
  induction messages with
  | nil =>
    intro past state written hr hc h
    exact fitAll_nil
  | cons message messages ih =>
    intro past state written hr hc h
    rw [LogState.writeAll] at h
    split at h
    · cases h
    · next hk =>
      have ha : Admissible state.view message := check_standard_iff.mp hk
      rw [fitAll_cons]
      exact ⟨(admissible_iff_fits hr).mp ha, ih (hr.write hc source ha) (hc.write source ha) h⟩

theorem misfit_of_writeAll {messages : List Message} {violation : Violation} :
    ∀ {past : List Message} {state : LogState}, Reads past state → state.Coherent →
      LogState.writeAll Invariant.standard source state messages = .error violation →
      ∃ earlier message rest, messages = earlier ++ message :: rest ∧ FitAll past earlier ∧
        ¬ Fits (past ++ earlier) message ∧
        violation.invariant = brokenRule (past ++ earlier) message := by
  induction messages with
  | nil =>
    intro past state hr hc h
    cases h
  | cons message messages ih =>
    intro past state hr hc h
    rw [LogState.writeAll] at h
    split at h
    · next hk =>
      cases h
      refine ⟨[], message, messages, rfl, fitAll_nil, ?_⟩
      rw [List.append_nil]
      exact brokenRule_of_check hr hk
    · next hk =>
      have ha : Admissible state.view message := check_standard_iff.mp hk
      obtain ⟨earlier, other, rest, rfl, hf, hm⟩ :=
        ih (hr.write hc source ha) (hc.write source ha) h
      refine ⟨message :: earlier, other, rest, rfl, ?_, ?_⟩
      · exact fitAll_cons.mpr ⟨(admissible_iff_fits hr).mp ha, hf⟩
      · rwa [List.append_cons]

end ReplayLemmas

open ReplayLemmas

/-- A source is accepted behind a log if and only if its messages fit there one after another. -/
theorem apply_accepts_iff_fits {past : List Message} {state : LogState} (hr : Reads past state)
    (hc : state.Coherent) (source : Source) :
    (∃ final, state.apply source Invariant.standard = .ok final) ↔
      FitAll past source.messages := by
  rw [apply_eq_writeAll]
  cases hw : LogState.writeAll Invariant.standard source state source.messages with
  | ok written => exact ⟨fun _ => fitAll_of_writeAll hr hc hw, fun _ => ⟨_, rfl⟩⟩
  | error violation =>
    refine ⟨fun h => ?_, fun hf => ?_⟩
    · obtain ⟨final, h⟩ := h
      cases h
    obtain ⟨earlier, message, rest, he, -, hm, -⟩ := misfit_of_writeAll hr hc hw
    exact absurd (hf earlier message rest he) hm

theorem misfit_of_apply {past : List Message} {state : LogState} {source : Source}
    {violation : Violation} (hr : Reads past state) (hc : state.Coherent)
    (h : state.apply source Invariant.standard = .error violation) :
    ∃ earlier message rest, source.messages = earlier ++ message :: rest ∧ FitAll past earlier ∧
      ¬ Fits (past ++ earlier) message ∧
      violation.invariant = brokenRule (past ++ earlier) message := by
  rw [apply_eq_writeAll] at h
  cases hw : LogState.writeAll Invariant.standard source state source.messages with
  | ok written => rw [hw] at h; cases h
  | error violation =>
    rw [hw] at h
    cases h
    exact misfit_of_writeAll hr hc hw

namespace ReplayLemmas

theorem fitAll_of_applyAll {sources : List Source} :
    ∀ {past : List Message} {state final : LogState}, Reads past state → state.Coherent →
      LogState.applyAll Invariant.standard state sources = .ok final →
      FitAll past (sources.flatMap Source.messages) := by
  induction sources with
  | nil =>
    intro past state final hr hc h
    exact fitAll_nil
  | cons source sources ih =>
    intro past state final hr hc h
    rw [LogState.applyAll] at h
    split at h
    · cases h
    · next reached ha =>
      rw [List.flatMap_cons, fitAll_append]
      exact ⟨(apply_accepts_iff_fits hr hc source).mp ⟨reached, ha⟩,
        ih (hr.apply hc ha) (hc.apply ha) h⟩

theorem misfit_of_applyAll {sources : List Source} {error : ReplayError} :
    ∀ {past : List Message} {state : LogState}, Reads past state → state.Coherent →
      LogState.applyAll Invariant.standard state sources = .error error →
      ∃ before source after earlier message rest, sources = before ++ source :: after ∧
        source.messages = earlier ++ message :: rest ∧
        FitAll past (before.flatMap Source.messages ++ earlier) ∧
        ¬ Fits (past ++ (before.flatMap Source.messages ++ earlier)) message ∧
        error.sourceId = source.id ∧ error.violation.invariant =
          brokenRule (past ++ (before.flatMap Source.messages ++ earlier)) message := by
  induction sources with
  | nil =>
    intro past state hr hc h
    cases h
  | cons source sources ih =>
    intro past state hr hc h
    rw [LogState.applyAll] at h
    split at h
    · next violation ha =>
      cases h
      obtain ⟨earlier, message, rest, he, hf, hm, hn⟩ := misfit_of_apply hr hc ha
      exact ⟨[], source, sources, earlier, message, rest, rfl, he, hf, hm, rfl, hn⟩
    · next reached ha =>
      obtain ⟨before, other, after, earlier, message, rest, rfl, he, hf, hrest⟩ :=
        ih (hr.apply hc ha) (hc.apply ha) h
      refine ⟨source :: before, other, after, earlier, message, rest, rfl, he, ?_, ?_⟩
      · rw [List.flatMap_cons, List.append_assoc, fitAll_append]
        exact ⟨(apply_accepts_iff_fits hr hc source).mp ⟨reached, ha⟩, hf⟩
      · rw [List.flatMap_cons, List.append_assoc source.messages, ← List.append_assoc past]
        exact hrest

end ReplayLemmas

/-- A replay accepts a log if and only if each of its messages fits behind the ones before it: it
writes the version that counts it among the messages of its entity, and no other entity has a lease
that it adds. A refused log is refused for its first message that does not fit, under the source of
that message, and by the rule of versions if its version is wrong. -/
theorem replay_accepts_iff_fits (sources : List Source) :
    ((∃ state, LogState.replay sources Invariant.standard = .ok state) ↔
      FitAll [] (sources.flatMap Source.messages)) ∧
    ∀ error, LogState.replay sources Invariant.standard = .error error →
      ∃ source past message, FirstOffence sources source past message ∧
        error.sourceId = source.id ∧ error.violation.invariant =
          if message.state.version.toNat = 1 + writes past message.state.id then "unique-lease"
          else "contiguous-version" := by
  have hr := reads_empty
  have hc := coherent_of_reachable .empty
  have herror : ∀ error, LogState.replay sources Invariant.standard = .error error →
      ∃ source past message, FirstOffence sources source past message ∧
        error.sourceId = source.id ∧ error.violation.invariant = brokenRule past message := by
    intro error h
    obtain ⟨before, source, after, earlier, message, rest, he, hm, hf, hmis, hid, hname⟩ :=
      misfit_of_applyAll hr hc h
    exact ⟨source, _, message, ⟨⟨before, after, earlier, rest, he, hm, rfl⟩, hf, hmis⟩, hid, hname⟩
  refine ⟨⟨fun ⟨state, h⟩ => fitAll_of_applyAll hr hc h, fun hf => ?_⟩, herror⟩
  cases h : LogState.replay sources Invariant.standard with
  | ok state => exact ⟨state, rfl⟩
  | error error =>
    -- the messages before the first offence are the beginning of a log of which all messages fit
    obtain ⟨source, past, message, ⟨⟨before, after, earlier, rest, rfl, he, rfl⟩, -, hm⟩, -⟩ :=
      herror error h
    refine absurd (hf _ message (rest ++ after.flatMap Source.messages) ?_) hm
    rw [List.flatMap_append, List.flatMap_cons, he]
    simp

/-- One entity takes a lease. In the next source another one asks for a lease that nobody has, and
then for that of the first one. -/
def exDisputed : List Source :=
  let source (n : Nat) (messages : List Message) : Source := ⟨.ofNat n, default, default, messages⟩
  let write (id n : Nat) : Message := .plain ⟨.ofNat id, (Version.ofNat? n).getD .zero⟩ default
  let room (name : String) : Lease := ⟨"room", "name", name⟩
  [source 8 [(write 1 1).takeLease (room "blue")],
    source 9 [(write 2 1).takeLease (room "red"), (write 2 2).takeLease (room "blue")]]

/-- The second source is refused because the lease is taken, though its versions are right. -/
theorem replay_accepts_iff_fits_disputed :
    ∃ error, LogState.replay exDisputed Invariant.standard = .error error ∧
      error.sourceId = .ofNat 9 ∧ error.violation.invariant = "unique-lease" ∧
      ∃ source past message, FirstOffence exDisputed source past message ∧
        source.id = .ofNat 9 := by
  obtain ⟨error, h, hid, hname⟩ : ∃ error,
      LogState.replay exDisputed Invariant.standard = .error error ∧
      error.sourceId = .ofNat 9 ∧ error.violation.invariant = "unique-lease" := by
    exact ⟨_, rfl, by decide, by decide⟩
  obtain ⟨source, past, message, hoff, hsource, -⟩ := (replay_accepts_iff_fits exDisputed).2 error h
  exact ⟨error, h, hid, hname, source, past, message, hoff, hsource ▸ hid⟩

/-! ## 2. What a replay derives -/

namespace ReplayLemmas

variable {state final : LogState} {source : Source} {sources : List Source}

theorem reachable_of_replay (h : LogState.replay sources Invariant.standard = .ok state) :
    state.Reachable := by
  have he : Engine.ofSources sources = .ok ⟨state, 0⟩ := by rw [Engine.ofSources, h]
  exact .ofSources he

theorem sources_of_applyAll :
    ∀ {state : LogState}, LogState.applyAll Invariant.standard state sources = .ok final →
      final.sources = state.sources ++ sources := by
  induction sources with
  | nil =>
    intro state h
    cases h
    rw [List.append_nil]
  | cons source sources ih =>
    intro state h
    rw [LogState.applyAll] at h
    split at h
    · cases h
    · next reached ha => rw [ih h, sources_of_apply ha, List.append_assoc, List.singleton_append]

theorem sources_of_replay (h : LogState.replay sources Invariant.standard = .ok state) :
    state.sources = sources := sources_of_applyAll h

theorem stamped_apply (hs : state.Stamped)
    (h : state.apply source Invariant.standard = .ok final) : final.Stamped := by
  -- an entity has the stamp of the source from its first message in the source on
  let P (past : List Message) (current : LogState) : Prop :=
    ∀ id entity, current.entity? id = some entity →
      if 0 < writes past id then
        entity.lastSource = source.id ∧ entity.updatedAt = source.timestamp
      else state.entity? id = some entity
  have hk : KeptByWrites source source.messages P := by
    intro past message current _ hp _ id entity he
    rw [HistoryLemmas.writes_concat]
    by_cases hid : message.state.id = id
    · subst hid
      rw [LogState.entity?_write_self, Option.some.injEq] at he
      subst he
      rw [if_pos rfl, if_pos (Nat.succ_pos _)]
      exact ⟨rfl, rfl⟩
    · rw [LogState.entity?_write_of_ne (Ne.symm hid)] at he
      rw [if_neg hid]
      exact hp id entity he
  have h0 : P [] state := fun id entity he => he
  obtain ⟨written, hp, rfl⟩ := apply_induction h h0 hk
  intro id entity he
  have hw := hp id entity he
  rw [lastWriter, HistoryLemmas.getLast?_filter_concat]
  split at hw
  · next hpos =>
    rw [if_pos (by simpa using hpos)]
    exact ⟨source, rfl, hw⟩
  · next hpos =>
    rw [if_neg (by simpa using hpos)]
    exact hs id entity hw

theorem stamped_of_reachable (h : state.Reachable) : state.Stamped := by
  refine reachable_induction (fun id entity he => ?_) (fun _ _ _ hs ha => stamped_apply hs ha) h
  simp [LogState.entity?, LogState.empty] at he

theorem mem_ids_iff_writes {messages : List Message} {id : Ident} :
    id ∈ (messages.map fun message => message.state.id).eraseDups ↔ 0 < writes messages id := by
  simp [writes, List.countP_pos_iff]

end ReplayLemmas

/-- What an accepted log derives. An entity exists if it has messages; its version counts them. It
has a lease or a tag if its latest message that mentions it adds it, the index names it for its
leases, and it has the stamp of the last source that wrote it. Entities are listed in the order of
their first messages. -/
theorem replay_reads_last_mentions {sources : List Source} {state : LogState}
    (h : LogState.replay sources Invariant.standard = .ok state) :
    (∀ id, 0 < writes (sources.flatMap Source.messages) id →
      (state.versionOf id).toNat = writes (sources.flatMap Source.messages) id ∧
      ∃ entity, state.entity? id = some entity ∧ entity.version = state.versionOf id ∧
        (∀ lease, (lease ∈ entity.leases ↔
            LastLeases (sources.flatMap Source.messages) id lease) ∧
          (state.leaseHolder lease = some id ↔
            LastLeases (sources.flatMap Source.messages) id lease)) ∧
        (∀ tag, tag ∈ entity.tags ↔ LastTags (sources.flatMap Source.messages) id tag) ∧
        ∃ source, lastWriter sources id = some source ∧ entity.lastSource = source.id ∧
          entity.updatedAt = source.timestamp) ∧
    state.entityList.map Prod.fst =
      ((sources.flatMap Source.messages).map fun message => message.state.id).eraseDups ∧
    ∀ id, writes (sources.flatMap Source.messages) id = 0 →
      state.entity? id = none ∧ state.versionOf id = .zero := by
  have hreach := reachable_of_replay h
  have hc := coherent_of_reachable hreach
  have hs := stamped_of_reachable hreach
  have hr := reads_of_reachable hreach
  rw [LogState.Stamped, sources_of_replay h] at hs
  rw [LogState.messages, sources_of_replay h] at hr
  have hexists : ∀ id, (state.entity? id).isSome ↔
      0 < writes (sources.flatMap Source.messages) id := fun id => by
    rw [← hc.mem_created, hr.created, mem_ids_iff_writes]
  refine ⟨fun id hpos => ⟨hr.version id, ?_⟩, ?_, fun id hzero => ?_⟩
  · obtain ⟨entity, he⟩ := Option.isSome_iff_exists.mp ((hexists id).mpr hpos)
    obtain ⟨source, hsource, hstamp⟩ := hs id entity he
    refine ⟨entity, he, ?_, fun lease => ⟨?_, hr.holder lease id⟩, fun tag => ?_,
      source, hsource, hstamp⟩
    · simp only [LogState.versionOf, he]
    · rw [← hr.holder, hc.index]
      simp [he]
    · rw [← hr.tags]
      simp [he]
  · rw [LeaseIndexLemmas.entityList_ids hc, hr.created]
  · have hnone : state.entity? id = none := by
      rw [← Option.not_isSome_iff_eq_none, hexists, hzero]
      exact Nat.lt_irrefl 0
    exact ⟨hnone, by simp only [LogState.versionOf, hnone]⟩

/-- A lease travels from one entity to another one. On its way it is released by who does not hold
it, and released and taken in one message; a tag is dropped and attached in one message. -/
def exTravelled : List Source :=
  let source (n : Nat) (messages : List Message) : Source := ⟨.ofNat n, default, default, messages⟩
  let write (id n : Nat) : Message := .plain ⟨.ofNat id, (Version.ofNat? n).getD .zero⟩ default
  let room : Lease := ⟨"room", "name", "blue"⟩
  let guest : Tag := ⟨"kind", "guest"⟩
  [source 7 [((write 1 1).takeLease room).attachTag guest, (write 2 1).releaseLease room],
    source 8 [((write 1 2).releaseLease room).dropTag guest, (write 2 2).takeLease room],
    source 9 [((write 2 3).takeLease room).releaseLease room,
      ((write 1 3).attachTag guest).dropTag guest]]

/-- At the end of the way the second entity has the lease and the first one the tag. -/
theorem replay_reads_last_mentions_travelled :
    ∃ state, LogState.replay exTravelled Invariant.standard = .ok state ∧
      (state.versionOf (.ofNat 1)).toNat = 3 ∧
      state.leaseHolder ⟨"room", "name", "blue"⟩ = some (.ofNat 2) ∧
      (∃ entity, state.entity? (.ofNat 1) = some entity ∧
        ⟨"room", "name", "blue"⟩ ∉ entity.leases ∧ ⟨"kind", "guest"⟩ ∈ entity.tags ∧
        entity.lastSource = .ofNat 9) ∧
      state.entityList.map Prod.fst = [.ofNat 1, .ofNat 2] := by
  obtain ⟨state, h⟩ : ∃ state, LogState.replay exTravelled Invariant.standard = .ok state :=
    ⟨_, rfl⟩
  obtain ⟨hentity, horder, -⟩ := replay_reads_last_mentions h
  obtain ⟨hversion, first, he, -, hleases, htags, source, hs, hstamp, -⟩ :=
    hentity (.ofNat 1) (by decide)
  obtain ⟨-, second, -, -, hholder, -⟩ := hentity (.ofNat 2) (by decide)
  have hlast : lastWriter exTravelled (.ofNat 1) = exTravelled.getLast? := by decide
  cases hlast.symm.trans hs
  refine ⟨state, h, hversion, (hholder _).2.mpr (by decide), ⟨first, he, ?_, ?_, hstamp⟩, horder⟩
  · exact fun hm => absurd ((hleases _).1.mp hm) (by decide)
  · exact (htags _).mpr (by decide)

end LeaseLog
