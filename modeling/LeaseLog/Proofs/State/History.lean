import LeaseLog.Proofs.FirstAppearances
import LeaseLog.Proofs.State.LeaseIndex

/-!
# Reading a log

What a log says of its entities, read off its messages alone. An entity is at the version that
counts its messages, and it has a lease or a tag if its latest message that mentions it adds it. A
message fits behind a log if it writes the next version of its entity and adds no lease that another
entity has.

Results:
1. `lastAdds_concat`: what one more message changes in the reading.
2. `admissible_iff_fits`: the standard rules let a message pass if and only if it fits.
3. `Reads.write`, `reads_of_reachable`: every reachable state is the reading of its own log.
-/

namespace LeaseLog

/-! ## Definitions -/

/-- How many messages write an entity. -/
def writes (messages : List Message) (id : Ident) : Nat :=
  messages.countP fun message => decide (message.state.id = id)

section

variable {α : Type} [DecidableEq α]

/-- The latest message of an entity that mentions an item: that adds or removes it. -/
def latestMention (adds removes : Message → List α) (messages : List Message) (id : Ident)
    (item : α) : Option Message :=
  (messages.filter fun message =>
    message.state.id = id ∧ (item ∈ adds message ∨ item ∈ removes message)).getLast?

/-- The latest message of an entity that mentions an item adds it. -/
def LastAdds (adds removes : Message → List α) (messages : List Message) (id : Ident)
    (item : α) : Prop :=
  ∃ message ∈ latestMention adds removes messages id item, item ∈ adds message

instance (adds removes : Message → List α) (messages : List Message) (id : Ident) (item : α) :
    Decidable (LastAdds adds removes messages id item) :=
  inferInstanceAs (Decidable (∃ message ∈ latestMention adds removes messages id item, _))

end

/-- By the messages of a log, an entity has a lease. -/
def LastLeases (messages : List Message) (id : Ident) (lease : Lease) : Prop :=
  LastAdds Message.addLeases Message.removeLeases messages id lease

/-- By the messages of a log, an entity has a tag. -/
def LastTags (messages : List Message) (id : Ident) (tag : Tag) : Prop :=
  LastAdds Message.addTags Message.removeTags messages id tag

instance (messages : List Message) (id : Ident) (lease : Lease) :
    Decidable (LastLeases messages id lease) := inferInstanceAs (Decidable (LastAdds _ _ _ _ _))

instance (messages : List Message) (id : Ident) (tag : Tag) :
    Decidable (LastTags messages id tag) := inferInstanceAs (Decidable (LastAdds _ _ _ _ _))

/-- A message may come next in a log. -/
structure Fits (past : List Message) (message : Message) : Prop where
  /-- Its version is one more than its entity has messages. -/
  follows : message.state.version.toNat = 1 + writes past message.state.id
  /-- No other entity has a lease that it adds. -/
  free : ∀ lease ∈ message.addLeases, ∀ other, other ≠ message.state.id →
    ¬ LastLeases past other lease

/-- Messages may come next in a log, one after another. -/
def FitAll (past messages : List Message) : Prop :=
  ∀ earlier message rest, messages = earlier ++ message :: rest → Fits (past ++ earlier) message

/-- A state is what some messages say. -/
structure Reads (messages : List Message) (state : LogState) : Prop where
  version : ∀ id, (state.versionOf id).toNat = writes messages id
  holder : ∀ lease id, state.leaseHolder lease = some id ↔ LastLeases messages id lease
  tags : ∀ id tag, (∃ entity, state.entity? id = some entity ∧ tag ∈ entity.tags) ↔
    LastTags messages id tag
  /-- The entities were created in the order of their first messages. -/
  created : state.created = (messages.map fun message => message.state.id).eraseDups

/-! ## 1. One more message -/

namespace HistoryLemmas

theorem getLast?_filter_concat {α : Type} {p : α → Bool} {items : List α} {item : α} :
    ((items ++ [item]).filter p).getLast? =
      if p item then some item else (items.filter p).getLast? := by
  rw [List.filter_append]
  by_cases h : p item = true
  · rw [List.filter_cons_of_pos h, List.filter_nil, List.getLast?_concat, if_pos h]
  · rw [List.filter_cons_of_neg h, List.filter_nil, List.append_nil, if_neg h]

variable {past messages : List Message} {message : Message} {id : Ident}

theorem writes_append : writes (past ++ messages) id = writes past id + writes messages id :=
  List.countP_append

theorem writes_eq_zero :
    writes messages id = 0 ↔ ∀ message ∈ messages, message.state.id ≠ id := by
  simp [writes, List.countP_eq_zero]

theorem writes_concat :
    writes (past ++ [message]) id =
      if message.state.id = id then writes past id + 1 else writes past id := by
  rw [writes_append, writes, writes, List.countP_singleton]
  by_cases h : message.state.id = id
  · simp [h]
  · simp [h]

end HistoryLemmas

open HistoryLemmas

/-- A message decides about the items of its entity that it mentions, and about nothing else. -/
theorem lastAdds_concat {α : Type} [DecidableEq α] {adds removes : Message → List α}
    {past : List Message} {message : Message} {id : Ident} {item : α} :
    LastAdds adds removes (past ++ [message]) id item ↔
      if message.state.id = id ∧ (item ∈ adds message ∨ item ∈ removes message) then
        item ∈ adds message
      else LastAdds adds removes past id item := by
  unfold LastAdds latestMention
  rw [getLast?_filter_concat]
  by_cases h : message.state.id = id ∧ (item ∈ adds message ∨ item ∈ removes message)
  · simp [h]
  · simp [h]

/-- Of a lease that no message removes, every entity has it that has taken it. -/
theorem lastLeases_of_keeps {messages : List Message} {lease : Lease} {id : Ident}
    (hk : Keeps messages lease) : LastLeases messages id lease ↔
      ∃ message ∈ messages, message.state.id = id ∧ lease ∈ message.addLeases := by
  constructor
  · rintro ⟨message, hm, hadd⟩
    obtain ⟨hmem, hp⟩ := List.mem_filter.mp (List.mem_of_getLast? hm)
    exact ⟨message, hmem, (of_decide_eq_true hp).1, hadd⟩
  · rintro ⟨message, hm, hid, hadd⟩
    have hmem : message ∈ messages.filter fun message =>
        message.state.id = id ∧ (lease ∈ message.addLeases ∨ lease ∈ message.removeLeases) :=
      List.mem_filter.mpr ⟨hm, decide_eq_true ⟨hid, .inl hadd⟩⟩
    cases hlast : latestMention Message.addLeases Message.removeLeases messages id lease with
    | none =>
      rw [List.getLast?_eq_none_iff.mp hlast] at hmem
      cases hmem
    | some last =>
      obtain ⟨hl, hp⟩ := List.mem_filter.mp (List.mem_of_getLast? hlast)
      refine ⟨last, hlast, ?_⟩
      exact (of_decide_eq_true hp).2.resolve_right (hk last hl)

theorem fitAll_nil {past : List Message} : FitAll past [] := by
  intro earlier message rest h
  simp at h

theorem fitAll_cons {past messages : List Message} {message : Message} :
    FitAll past (message :: messages) ↔
      Fits past message ∧ FitAll (past ++ [message]) messages := by
  constructor
  · intro h
    refine ⟨by simpa using h [] message messages rfl, fun earlier other rest he => ?_⟩
    have hf := h (message :: earlier) other rest (by rw [he]; rfl)
    rwa [List.append_cons] at hf
  · rintro ⟨hf, h⟩ earlier other rest he
    cases earlier with
    | nil =>
      cases he
      rwa [List.append_nil]
    | cons first earlier =>
      cases he
      rw [List.append_cons]
      exact h earlier other rest rfl

theorem fitAll_append {past messages others : List Message} :
    FitAll past (messages ++ others) ↔ FitAll past messages ∧ FitAll (past ++ messages) others := by
  induction messages generalizing past with
  | nil => simp [fitAll_nil]
  | cons message messages ih =>
    rw [List.cons_append, fitAll_cons, fitAll_cons, ih, and_assoc, List.append_assoc past,
      List.singleton_append]

/-! ## 2. The standard rules -/

/-- In a state that is what a log says, the standard rules ask of a message that it fits. -/
theorem admissible_iff_fits {past : List Message} {state : LogState} {message : Message}
    (h : Reads past state) : Admissible state.view message ↔ Fits past message := by
  constructor
  · rintro ⟨hf, hl⟩
    refine ⟨?_, fun lease hm other hne ho => ?_⟩
    · rw [hf, ← h.version, Nat.add_comm]
      rfl
    · exact hne (hl lease hm other ((h.holder lease other).mpr ho))
  · rintro ⟨hf, hl⟩
    refine ⟨?_, fun lease hm holder hh => ?_⟩
    · rw [hf, ← h.version, Nat.add_comm]
      rfl
    · refine Decidable.byContradiction fun hne => ?_
      exact hl lease hm holder hne ((h.holder lease holder).mp hh)

/-! ## 3. States and their logs -/

namespace HistoryLemmas

variable {past : List Message} {state : LogState} {source : Source} {message : Message}

theorem version_write (h : Reads past state) (ha : Admissible state.view message) (id : Ident) :
    ((state.write source message).versionOf id).toNat = writes (past ++ [message]) id := by
  rw [LogState.versionOf_write, writes_concat]
  by_cases he : message.state.id = id
  · rw [if_pos he.symm, if_pos he, ha.follows, ← he]
    exact congrArg (· + 1) (h.version _)
  · rw [if_neg (Ne.symm he), if_neg he]
    exact h.version id

/-- The holder after a message is who has the lease by the log, as nobody else had it if it was
added. -/
theorem holder_write (h : Reads past state) (ha : Admissible state.view message) (lease : Lease)
    (id : Ident) :
    (state.write source message).leaseHolder lease = some id ↔
      LastLeases (past ++ [message]) id lease := by
  have hfree : lease ∈ message.addLeases → message.state.id ≠ id →
      state.leaseHolder lease ≠ some id := fun hadd hne hh => hne (ha.free lease hadd id hh).symm
  have hother : message.state.id ≠ id → state.leaseHolder lease = some message.state.id →
      state.leaseHolder lease ≠ some id := fun hne hh hi => hne (Option.some.inj (hh.symm.trans hi))
  rw [LastLeases, lastAdds_concat, ← LastLeases, ← h.holder, LogState.leaseHolder_write]
  by_cases he : message.state.id = id
  · subst he
    by_cases hadd : lease ∈ message.addLeases <;> by_cases hrem : lease ∈ message.removeLeases <;>
      simp [hadd, hrem]
  · by_cases hadd : lease ∈ message.addLeases
    · simp [hadd, he, hfree hadd he]
    · by_cases hh : state.leaseHolder lease = some message.state.id
      · simp [hadd, he, hh]
      · simp [hadd, he, hh]

theorem tags_write (h : Reads past state) (id : Ident) (tag : Tag) :
    (∃ entity, (state.write source message).entity? id = some entity ∧ tag ∈ entity.tags) ↔
      LastTags (past ++ [message]) id tag := by
  rw [LastTags, lastAdds_concat, ← LastTags, ← h.tags]
  by_cases he : message.state.id = id
  · subst he
    have hbefore : tag ∈ ((state.entity? message.state.id).getD (.unwritten source)).tags ↔
        ∃ entity, state.entity? message.state.id = some entity ∧ tag ∈ entity.tags := by
      cases state.entity? message.state.id with
      | none => simp [Entity.unwritten]
      | some entity => simp
    simp only [LogState.entity?_write_self, Option.some.injEq, exists_eq_left',
      OrdSet.mem_foldl_add, OrdSet.mem_foldl_remove, hbefore]
    by_cases hadd : tag ∈ message.addTags <;> by_cases hrem : tag ∈ message.removeTags <;>
      simp [hadd, hrem]
  · rw [if_neg fun hm => he hm.1, LogState.entity?_write_of_ne (Ne.symm he)]

theorem created_write_eq (h : Reads past state) (hc : state.Coherent) :
    (state.write source message).created =
      ((past ++ [message]).map fun message => message.state.id).eraseDups := by
  have hmem : (state.entity? message.state.id).isSome ↔
      message.state.id ∈ past.map fun message => message.state.id := by
    rw [← hc.mem_created, h.created, List.mem_eraseDups]
  rw [LogState.created_write, List.map_append, List.map_singleton, eraseDups_concat, h.created]
  exact if_congr hmem rfl rfl

end HistoryLemmas

/-- Writing an admissible message keeps a state what its log says. -/
theorem Reads.write {past : List Message} {state : LogState} {message : Message}
    (h : Reads past state) (hc : state.Coherent) (source : Source)
    (ha : Admissible state.view message) :
    Reads (past ++ [message]) (state.write source message) where
  version := version_write h ha
  holder := holder_write h ha
  tags := tags_write h
  created := created_write_eq h hc

theorem reads_empty : Reads [] .empty where
  version _ := rfl
  holder lease id := by
    simp [LogState.leaseHolder, LogState.empty, LastLeases, LastAdds, latestMention]
  tags id tag := by simp [LogState.entity?, LogState.empty, LastTags, LastAdds, latestMention]
  created := rfl

theorem Reads.apply {past : List Message} {state final : LogState} {source : Source}
    (h : Reads past state) (hc : state.Coherent)
    (ha : state.apply source Invariant.standard = .ok final) :
    Reads (past ++ source.messages) final := by
  let P (messages : List Message) (current : LogState) : Prop :=
    Reads (past ++ messages) current ∧ current.Coherent
  have hk : KeptByWrites source source.messages P := by
    rintro messages message current - ⟨hr, hc⟩ ha
    refine ⟨?_, hc.write source ha⟩
    rw [← List.append_assoc]
    exact hr.write hc source ha
  obtain ⟨written, ⟨hr, -⟩, rfl⟩ := apply_induction ha ⟨by simpa using h, hc⟩ hk
  exact ⟨hr.version, hr.holder, hr.tags, hr.created⟩

/-- Every reachable state is what its own log says. -/
theorem reads_of_reachable {state : LogState} (h : state.Reachable) :
    Reads state.messages state := by
  refine (reachable_induction (P := fun state => state.Coherent ∧ Reads state.messages state)
    ⟨coherent_of_reachable .empty, reads_empty⟩ ?_ h).2
  rintro state source final ⟨hc, hr⟩ ha
  refine ⟨hc.apply ha, ?_⟩
  rw [messages_of_apply ha]
  exact hr.apply hc ha

end LeaseLog
