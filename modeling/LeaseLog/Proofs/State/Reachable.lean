import LeaseLog.Proofs.State.Accepted
import LeaseLog.Storage.Session

/-!
# Reachable states

The states that an engine can have: an empty log or a replayed one, and what commits and purges make
of it. A purge replays what is left, so every reachable state is built from the empty one by accepted
sources alone; `reachable_induction` is the induction that follows from this.

Results:
1. `reachable_induction`: what accepted sources keep holds in every reachable state.
2. `recorded_of_reachable`: the messages of an entity have the versions from one to the stored one,
   in log order, and every holder of a lease has a message that took it.
-/

namespace LeaseLog

/-! ## Definitions -/

namespace LogState

/-- The states that an engine can have. -/
inductive Reachable : LogState → Prop
  | empty : Reachable .empty
  | ofSources {sources : List Source} {engine : Engine} :
      Engine.ofSources sources = .ok engine → Reachable engine.state
  | commit {state : LogState} (source : Source) : Reachable state → Reachable (state.commit source).2
  | purge {state next : LogState} {id : Ident} :
      Reachable state → state.purge id = .ok next → Reachable next

/-- The committed messages, in log order. -/
def messages (state : LogState) : List Message := state.sources.flatMap Source.messages

/-- The versions that the committed messages of an entity write, in log order. -/
def history (state : LogState) (id : Ident) : List Nat :=
  (state.messages.filter (·.state.id = id)).map (·.state.version.toNat)

/-- The state agrees with the messages that it was derived from. -/
structure Recorded (state : LogState) : Prop where
  /-- An entity at version `n` was written at the versions `1, …, n`, in this order. -/
  history : ∀ id, state.history id = List.range' 1 (state.versionOf id).toNat
  /-- Whoever holds a lease has taken it. -/
  taken : ∀ lease id, state.leaseHolder lease = some id →
    ∃ message ∈ state.messages, message.state.id = id ∧ lease ∈ message.addLeases

end LogState

/-! ## 1. Induction over accepted sources -/

section

variable {P : LogState → Prop}

theorem applyAll_induction
    (hs : ∀ state source final, P state → state.apply source Invariant.standard = .ok final →
      P final)
    {sources : List Source} : ∀ {state final : LogState}, P state →
      LogState.applyAll Invariant.standard state sources = .ok final → P final := by
  induction sources with
  | nil =>
    intro state final h0 h
    cases h
    exact h0
  | cons source sources ih =>
    intro state final h0 h
    rw [LogState.applyAll] at h
    split at h
    · cases h
    · next reached hn => exact ih (hs state source reached h0 hn) h

/-- What holds in the empty state and is kept by accepted sources holds in every reachable state.
A purge starts again from the empty state, so nothing has to be known about it. -/
theorem reachable_induction (h0 : P .empty)
    (hs : ∀ state source final, P state → state.apply source Invariant.standard = .ok final →
      P final)
    {state : LogState} (h : state.Reachable) : P state := by
  induction h with
  | empty => exact h0
  | ofSources hr =>
    rw [Engine.ofSources] at hr
    split at hr
    · next hr' =>
      cases hr
      exact applyAll_induction hs h0 hr'
    · cases hr
  | commit source _ ih =>
    rw [LogState.commit]
    split
    · next ha => exact hs _ _ _ ih ha
    · exact ih
  | purge _ hp ih =>
    rw [LogState.purge] at hp
    split at hp
    · exact applyAll_induction hs h0 hp
    · cases hp
      exact ih

end

theorem LogState.Reachable.apply {state final : LogState} {source : Source} (h : state.Reachable)
    (ha : state.apply source Invariant.standard = .ok final) : final.Reachable := by
  have hc : (state.commit source).2 = final := by rw [LogState.commit, ha]
  exact hc ▸ h.commit source

/-! ## 2. States and the messages behind them -/

section

variable {state final : LogState} {source : Source}

theorem messages_of_apply (h : state.apply source Invariant.standard = .ok final) :
    final.messages = state.messages ++ source.messages := by
  rw [LogState.messages, sources_of_apply h]
  simp [LogState.messages]

theorem LogState.Recorded.apply (hr : state.Recorded)
    (h : state.apply source Invariant.standard = .ok final) : final.Recorded := by
  refine ⟨fun id => ?_, fun lease id hl => ?_⟩
  · obtain ⟨hv, hn⟩ := versions_of_apply h id
    rw [LogState.history, messages_of_apply h, List.filter_append, List.map_append, hv, hn,
      ← List.range'_append_1, Nat.add_comm 1]
    exact congrArg (· ++ _) (hr.history id)
  · rw [messages_of_apply h]
    rcases leaseHolder_origin h hl with hb | ⟨message, hm, he⟩
    · obtain ⟨message, hm, he⟩ := hr.taken lease id hb
      exact ⟨message, List.mem_append_left _ hm, he⟩
    · exact ⟨message, List.mem_append_right _ hm, he⟩

theorem recorded_of_reachable (h : state.Reachable) : state.Recorded := by
  refine reachable_induction ⟨fun _ => rfl, fun lease id hl => ?_⟩
    (fun _ _ _ hr ha => hr.apply ha) h
  simp [LogState.leaseHolder, LogState.empty] at hl

end

end LeaseLog
